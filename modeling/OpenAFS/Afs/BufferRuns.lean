import Mathlib.Data.Fintype.Basic
import OpenAFS.Afs.BufferWalks

namespace OpenAFS.Afs

open Function (update update_self update_of_ne)
open Lib List

namespace DirBuffers

variable {Proc D : Type} {n : Nat} [DecidableEq Proc] {F : CacheFiles} {s s' : DirBuffers Proc D n}

/-- A `DFlushDCache` that gave up `afs_bufferLock` needs a buffer which goes to the front of the chain now, so that the
call never comes to it. -/
def Passed (s : DirBuffers Proc D n) (t : Proc) (m : Fin n) : Prop :=
  match s.task t with
  | .flushing (.entry index todo goal) _ b => s.Needs index todo goal b m
  | _ => False

/-- A `DFlushDCache` that gave up `afs_bufferLock` is at a buffer which goes to another chain now, and needs one behind it. -/
def Derailed (s : DirBuffers Proc D n) (t : Proc) (v : Fin n) : Prop :=
  match s.task t with
  | .flushing (.entry index todo goal) _ b => b = v ∧ ∃ x, s.Needs index todo goal b x
  | _ => False

def KeepsWalks (s : DirBuffers Proc D n) (lp : Option (Fin n)) (i : Nat) : Prop :=
  match s.slot lp with
  | some v => (s.buffers v).hashIndex ≠ i → ∀ t, ¬ s.Derailed t v
  | none => True

/-- The steps in which the package works as it should. Callers modify no page that was zapped while they had it; the counter
of the lockers does not wrap. -/
def Met (s : DirBuffers Proc D n) : BufferAction Proc D n → Prop
  | .dRead _ adc page =>
    match s.find adc.index page with
    | some m => (s.buffers m).lockers ≠ 255 ∧ ∀ t, ¬ s.Passed t m
    | none => s.KeepsWalks (s.phTable (pHash adc.index page)).getLast? (pHash adc.index page)
  | .dNew _ adc page => s.KeepsWalks none (pHash adc.index page)
  | .dRelease b flag => flag = true → (s.buffers b).fid ≠ none
  | .lock t =>
    match s.task t with
    | .flushing _ _ b => (s.buffers b).lockers ≠ 255
    | _ => True
  | _ => True

/-- No buffer with lockers gets another page, and one that is dirty is written to its own file before it does. Only `DZap`
takes pages away from others. -/
def Reuses (F : CacheFiles) (s : DirBuffers Proc D n) (a : BufferAction Proc D n) (s' : DirBuffers Proc D n) : Prop :=
  ∀ b, ((s'.buffers b).fid, (s'.buffers b).page) ≠ ((s.buffers b).fid, (s.buffers b).page) →
    (∃ t, a = .zap t) ∧ (s'.buffers b).fid = none ∨
      (s.buffers b).lockers = 0 ∧ (s.buffers b).callers = 0 ∧ ((s.buffers b).dirty = true →
        ∃ index, (s.buffers b).fid = some index ∧ s'.files (F.inode index) (s.buffers b).page = (s.buffers b).data)

variable {page : Nat} {lp : Option (Fin n)}

section Choice

omit [DecidableEq Proc]

theorem find_some {index : Nat} {b : Fin n} (found : s.find index page = some b) :
    s.Bufmatch index page b ∧ b ∈ s.phTable (pHash index page) :=
  ⟨by simpa using find?_some found, mem_of_find?_eq_some found⟩

theorem find_none (chains : s.Chains) {index : Nat} (missing : s.find index page = none) (m : Fin n) :
    ¬ s.Bufmatch index page m := by
  intro matched
  obtain ⟨there, hash⟩ := chains.hashed m index matched.2
  rw [hash, matched.1] at there
  exact absurd (decide_eq_true matched) (List.find?_eq_none.mp missing m there)

theorem oldest_unused {v : Fin n} (chosen : s.oldest lp = some v) :
    lp = some v ∨ (s.buffers v).lockers = 0 := by
  unfold oldest at chosen
  generalize List.finRange n = l at chosen
  induction l generalizing lp with
  | nil => exact .inl chosen
  | cons b l ih =>
    rw [foldl_cons] at chosen
    refine (ih chosen).elim (fun first => ?_) .inr
    split at first
    · rename_i better
      cases first
      exact .inr better.1
    · exact .inl first

theorem slot_unused {v : Fin n} (chosen : s.slot lp = some v) : (s.buffers v).lockers = 0 := by
  unfold slot at chosen
  have given {b : Fin n} (same : (lp.filter fun b => (s.buffers b).lockers = 0) = some b) : (s.buffers b).lockers = 0 := by
    simpa using (Option.filter_eq_some_iff.mp same).2
  split at chosen
  · cases first : lp.filter fun b => (s.buffers b).lockers = 0 with
    | some b =>
      rw [first] at chosen
      cases chosen
      exact given first
    | none =>
      rw [first] at chosen
      simpa using find?_some chosen
  · exact (oldest_unused chosen).elim given id

end Choice

variable {P : Proc → Prop}

section Frames

omit [DecidableEq Proc]

theorem Sound.not_held (sound : s.Sound F P) {v : Fin n} (unused : (s.buffers v).lockers = 0) {t : Proc}
    {use : Use} : (s.buffers v).lock ≠ some (t, use) := by
  rw [((sound.contents.counts v).unused unused).2.2]
  exact nofun

theorem Sound.all {t : Proc} {task : Task n} (others : s.Sound F (· ≠ t)) (is : s.task t = task) (ok : s.TaskOK t task)
    (walk : s.WalkOK task) : s.Sound F fun _ => True := by
  subst is
  refine ⟨others.chains, others.contents, fun t' _ => ?_, fun t' _ => ?_⟩
  · by_cases same : t' = t
    · exact same ▸ ok
    · exact others.tasks t' same
  · by_cases same : t' = t
    · exact same ▸ walk
    · exact others.walks t' same

theorem Sound.moves {Q : Proc → Prop} (sound : s.Sound F P) (readers : s.readers = ∅) (chains : s'.Chains)
    (contents : s'.Contents F) (fewer : ∀ t, Q t → P t) (task : ∀ t, Q t → s'.task t = s.task t)
    (held : ∀ t b use, (s.buffers b).lock = some (t, use) → (s'.buffers b).lock = some (t, use) ∧
      (s'.buffers b).fid = (s.buffers b).fid ∧ (s'.buffers b).page = (s.buffers b).page)
    (walk : ∀ t index todo goal phase b, Q t → s.task t = .flushing (.entry index todo goal) phase b →
      (phase = .resume ∨ ∃ use, (s.buffers b).lock = some (t, use)) →
      s.WalkOK (.flushing (.entry index todo goal) phase b) → s'.WalkOK (.flushing (.entry index todo goal) phase b)) :
    s'.Sound F Q := by
  have nobody (t : Proc) : t ∉ s.readers := by
    rw [readers]
    exact Finset.notMem_empty t
  refine ⟨chains, contents, fun t q => ?_, fun t q => ?_⟩
  · rw [task t q]
    exact (sound.tasks t (fewer t q)).kept (fun there => absurd there (nobody t)) (held t)
  rw [task t q]
  have ok := sound.tasks t (fewer t q)
  have walks := sound.walks t (fewer t q)
  cases is : s.task t with
  | idle => trivial
  | reading _ _ _ => trivial
  | zapping _ _ _ =>
    rw [is] at ok
    exact absurd ok (nobody t)
  | flushing walk' phase b =>
    cases walk' with
    | all => trivial
    | entry index todo goal =>
      rw [is] at ok walks
      refine walk t index todo goal phase b q is ?_ walks
      cases phase with
      | await => exact absurd ok (nobody t)
      | io => exact .inr (ok.imp fun use both => both.1)
      | resume => exact .inl rfl

end Frames

omit [DecidableEq Proc] in
theorem Sound.hit (sound : s.Sound F fun _ => True) (readers : s.readers = ∅) {index : Nat} {b : Fin n}
    (found : s.find index page = some b) (free : (s.buffers b).lock = none) (fits : (s.buffers b).lockers ≠ 255)
    (clear : ∀ t, ¬ s.Passed t b)
    (is : s' = { (s.bufFront (pHash index page) b).setBuffer b { s.buffers b with
        lockers := (s.buffers b).lockers + 1, accesstime := s.timecounter, callers := (s.buffers b).callers + 1 } with
      timecounter := s.timecounter + 1
      out := some (.page index page b) }) : s'.Sound F (fun _ => True) ∧ s'.Returned F := by
  obtain ⟨matched, there⟩ := find_some found
  have buffers (m : Fin n) (other : m ≠ b) : s'.buffers m = s.buffers m := by
    rw [is]
    exact setBuffer_other other _
  have same : s'.buffers b = { s.buffers b with
      lockers := (s.buffers b).lockers + 1, accesstime := s.timecounter, callers := (s.buffers b).callers + 1 } := by
    rw [is]
    exact setBuffer_same _ _
  have contents : s'.Contents F := by
    rw [is]
    exact (sound.contents.hit rfl free fits (pHash index page)).of_same rfl fun _ => ⟨_, rfl⟩
  have quiet : Quiet (s.bufFront (pHash index page) b) s' :=
    .setBuffer (by rw [is]; rfl) buffers (by rw [same]; exact ⟨rfl, rfl⟩) (fun _ has => by rw [same] at has; exact has)
      (fun _ _ => by rw [is]; rfl) (fun _ _ => by rw [is]; rfl)
  refine ⟨sound.moves readers (quiet.chains (sound.chains.bufFront there)) contents (fun _ => id) (fun _ _ => by rw [is]; rfl)
    ?_ ?_, ?_⟩
  · intro t m use lock
    have other : m ≠ b := by
      rintro rfl
      exact nomatch free.symm.trans lock
    rw [buffers m other]
    exact ⟨lock, rfl, rfl⟩
  · intro t index' todo goal phase m _ task _ ok
    refine quiet.walk (ok.bufFront sound.chains fun needs => clear t ?_)
    unfold Passed
    rw [task]
    exact needs
  · have out : s'.out = some (.page index page b) := by rw [is]
    have known := (sound.contents.agrees b index matched.2).last (Buffer.loading_free free)
    refine ⟨fun index' page' b' given => ?_, fun _ given => (nomatch out.symm.trans given),
      fun _ _ given => (nomatch out.symm.trans given)⟩
    cases out.symm.trans given
    unfold Bufmatch
    rw [same]
    refine ⟨matched, fun unmodified => (known unmodified).trans ?_⟩
    rw [matched.1, is]
    rfl

section Newslot

omit [DecidableEq Proc]

theorem rewind_task : s.rewind.task = s.task := by unfold rewind; split <;> rfl

theorem rewind_readers : s.rewind.readers = s.readers := by unfold rewind; split <;> rfl

variable {v : Fin n}

theorem evict_task : (s.evict v).task = s.task := by unfold evict; split <;> rfl

theorem evict_readers : (s.evict v).readers = s.readers := by unfold evict; split <;> rfl

theorem quiet_rewind : Quiet s s.rewind := by
  unfold rewind
  split
  · exact ⟨rfl, fun _ => ⟨rfl, rfl⟩, fun _ _ => id, fun _ _ => le_rfl, fun _ _ => le_rfl⟩
  · exact ⟨rfl, fun _ => ⟨rfl, rfl⟩, fun _ _ => id, fun _ _ => le_rfl, fun _ _ => le_rfl⟩

theorem rewind_buffer (b : Fin n) : ∃ accesstime, s.rewind.buffers b = { s.buffers b with accesstime } := by
  unfold rewind
  split
  · exact ⟨0, rfl⟩
  · exact ⟨_, rfl⟩

theorem Contents.saved_le (c : s.Contents F) (b : Fin n) (index page : Nat) :
    s.saved index page ≤ (s.cFileWrite b).saved index page := by
  cases has : (s.buffers b).fid with
  | none =>
    simp only [cFileWrite, has]
    exact le_refl _
  | some index' =>
    simp only [cFileWrite, has]
    by_cases same : (s.buffers b).page = page ∧ index' = index
    · obtain ⟨rfl, rfl⟩ := same
      rw [update_page_same]
      exact (c.pages index' _).le
    · rw [update_page _ _ same]

theorem evict_other {m : Fin n} (other : m ≠ v) : (s.evict v).buffers m = s.buffers m := by
  unfold evict
  split
  · exact setBuffer_other other _
  · rfl

theorem evict_same : (s.evict v).buffers v = { s.buffers v with dirty := false } := by
  unfold evict
  split
  · exact setBuffer_same _ _
  · rename_i clean
    rw [← Bool.eq_false_of_not_eq_true clean]

theorem Contents.quiet_evict (c : s.Contents F) (v : Fin n) : Quiet s (s.evict v) := by
  refine .setBuffer ?_ (fun m other => evict_other other) (by rw [evict_same]; exact ⟨rfl, rfl⟩)
    (fun index has => by rw [evict_same] at has; exact has) (fun index page => ?_) fun index page => ?_
  · unfold DirBuffers.evict
    split <;> rfl
  · unfold DirBuffers.evict
    split
    · exact c.saved_le v index page
    · exact le_rfl
  · unfold DirBuffers.evict
    split <;> exact le_rfl

theorem Sound.evict (sound : s.Sound F P) (unused : (s.buffers v).lockers = 0) :
    (s.rewind.evict v).Sound F P := by
  have rewound : s.rewind.Sound F P := by
    refine sound.quiet quiet_rewind sound.contents.rewind (fun _ => id) (fun t _ => by rw [rewind_task])
      (fun t _ there => by rw [rewind_readers]; exact there) fun t _ b use lock => ?_
    obtain ⟨accesstime, same⟩ := s.rewind_buffer b
    rw [same]
    exact ⟨lock, rfl, rfl⟩
  have unused : (s.rewind.buffers v).lockers = 0 := by
    obtain ⟨accesstime, same⟩ := s.rewind_buffer v
    rw [same]
    exact unused
  refine rewound.quiet (rewound.contents.quiet_evict v) (rewound.contents.evict unused) (fun _ => id)
    (fun t _ => by rw [evict_task]) (fun t _ there => by rw [evict_readers]; exact there) fun t _ b use lock => ?_
  by_cases same : b = v
  · rw [same] at lock
    exact absurd lock (rewound.not_held unused)
  · rw [evict_other same]
    exact ⟨lock, rfl, rfl⟩

theorem Quiet.derailed (quiet : Quiet s s') (task : s'.task = s.task) {t : Proc} (derailed : s'.Derailed t v) :
    s.Derailed t v := by
  unfold Derailed at derailed ⊢
  rw [task] at derailed
  split at derailed
  · obtain ⟨here, x, wanted, there, passed⟩ := derailed
    refine ⟨here, x, quiet.wanted wanted, ?_, ?_⟩
    · unfold rest at there ⊢
      rw [quiet.table, (quiet.place _).1] at there
      exact there
    · rw [(quiet.place x).2] at passed
      exact passed
  · exact derailed

theorem Sound.taken {Q : Proc → Prop} (sound : s.Sound F P) (readers : s.readers = ∅) {index : Nat}
    (unused : (s.buffers v).lockers = 0) (absent : ∀ m, ¬ s.Bufmatch index page m) (moved : Moved s s' v index page)
    (contents : s'.Contents F) (clear : (s.buffers v).hashIndex ≠ pHash index page → ∀ t, ¬ s.Derailed t v)
    (fewer : ∀ t, Q t → P t) (task : ∀ t, Q t → s'.task t = s.task t) : s'.Sound F Q := by
  refine sound.moves readers (moved.chains sound.chains) contents fewer task ?_ ?_
  · intro t b use lock
    have other : b ≠ v := by
      rintro rfl
      exact sound.not_held unused lock
    rw [moved.others b other]
    exact ⟨lock, rfl, rfl⟩
  intro t index' todo goal phase b _ task held ok
  refine moved.walk sound.chains sound.contents absent ok (fun here => ?_) fun here goes x needs => ?_
  · subst here
    exact held.elim id fun ⟨use, lock⟩ => absurd lock (sound.not_held unused)
  refine clear goes t ?_
  unfold Derailed
  rw [task]
  exact ⟨here, x, needs⟩

theorem evict_written (dirty : (s.buffers v).dirty = true) :
    (s.evict v).files (s.buffers v).inode (s.buffers v).page = (s.buffers v).data := by
  unfold evict
  rw [if_pos dirty]
  exact update_page_same _ _ _ _

theorem Sound.newslot (sound : s.Sound F fun _ => True) (Q : Proc → Prop) (a : BufferAction Proc D n) (tb : Buffer Proc D)
    (task : Proc → Task n) (readers : s.readers = ∅) (chosen : s.slot lp = some v)
    {index : Nat} (absent : ∀ m, ¬ s.Bufmatch index page m)
    (keeps : s.KeepsWalks lp (pHash index page)) (hashIndex : tb.hashIndex = pHash index page) (here : tb.page = page)
    (clean : tb.dirty = false) (counts : tb.Counts)
    (unwritten : ¬ tb.Written) (gets : ∀ index', tb.fid = some index' → index' = index ∧ tb.inode = F.inode index ∧
      (tb.Loading ∨ 0 < tb.modifiers)) (others : ∀ t, Q t → task t = s.task t) :
    { (s.rewind.newslot F v index page).setBuffer v tb with task := task, out := none }.Sound F Q ∧
      s.Reuses F a { (s.rewind.newslot F v index page).setBuffer v tb with task := task, out := none } := by
  have unused := slot_unused chosen
  have evicted := sound.evict unused
  obtain ⟨accesstime, rewound⟩ := s.rewind_buffer v
  have victim : (s.rewind.evict v).buffers v = { s.buffers v with accesstime, dirty := false } := by
    rw [evict_same, rewound]
  have elsewhere (m : Fin n) (other : m ≠ v) :
      ((s.rewind.newslot F v index page).setBuffer v tb).buffers m = (s.rewind.evict v).buffers m := by
    rw [setBuffer_other other]
    exact setBuffer_other other _
  have quiet : Quiet s (s.rewind.evict v) := by
    have first := @quiet_rewind _ _ _ s
    have second := sound.contents.rewind.quiet_evict v
    exact ⟨second.table.trans first.table,
      fun b => ⟨(second.place b).1.trans (first.place b).1, (second.place b).2.trans (first.place b).2⟩,
      fun b index has => first.fid b index (second.fid b index has), fun i p => (first.saved i p).trans (second.saved i p),
      fun i p => (first.releases i p).trans (second.releases i p)⟩
  have taskSame : (s.rewind.evict v).task = s.task := evict_task.trans rewind_task
  have absent' (m : Fin n) : ¬ (s.rewind.evict v).Bufmatch index page m := fun matched =>
    absent m ⟨(quiet.place m).2.symm.trans matched.1, quiet.fid m index matched.2⟩
  constructor
  · have moved : Moved (s.rewind.evict v) { (s.rewind.newslot F v index page).setBuffer v tb with task := task, out := none } v
        index page :=
      { table := rfl
        others := elsewhere
        hashIndex := (congrArg Buffer.hashIndex (setBuffer_same v tb)).trans hashIndex
        page := (congrArg Buffer.page (setBuffer_same v tb)).trans here
        fid := fun index' has => (gets index' ((congrArg Buffer.fid (setBuffer_same v tb)).symm.trans has)).1
        saved := rfl
        releases := rfl }
    have contents : { (s.rewind.newslot F v index page).setBuffer v tb with task := task, out := none }.Contents F := by
      have same : ((s.rewind.newslot F v index page).setBuffer v tb).buffers v = tb := setBuffer_same _ _
      refine evicted.contents.reassign (by rw [victim]) (by rw [victim]; exact unused) elsewhere rfl ?_ ?_ ?_ ?_
      · exact same.symm ▸ counts
      · exact (congrArg Buffer.dirty same).trans clean
      · exact same.symm ▸ unwritten
      intro index' has
      show (((s.rewind.newslot F v index page).setBuffer v tb).buffers v).inode = _ ∧ _
      rw [same] at *
      obtain ⟨rfl, inode, busy⟩ := gets index' has
      rw [here]
      exact ⟨inode, absent', busy⟩
    refine evicted.taken (evict_readers.trans (rewind_readers.trans readers)) (by rw [victim]; exact unused)
        absent' moved contents
      (fun goes t derailed => ?_) (fun _ _ => trivial) fun t q => (others t q).trans (congrFun taskSame t).symm
    unfold KeepsWalks at keeps
    rw [chosen] at keeps
    refine keeps ?_ t (quiet.derailed taskSame derailed)
    rw [victim] at goes
    exact goes
  · intro b changed
    by_cases same : b = v
    · subst same
      obtain ⟨callers, -, -⟩ := (sound.contents.counts b).unused unused
      refine .inr ⟨unused, callers, fun dirty => ?_⟩
      obtain ⟨index', has⟩ := (sound.contents.counts b).owned dirty
      refine ⟨index', has, ?_⟩
      have written : (s.rewind.evict b).files (s.rewind.buffers b).inode (s.rewind.buffers b).page = (s.rewind.buffers b).data :=
        evict_written (by rw [rewound]; exact dirty)
      rw [rewound] at written
      rw [← sound.contents.inode b index' has]
      exact written
    · refine absurd ?_ changed
      obtain ⟨accesstime, rewound⟩ := s.rewind_buffer b
      have kept : ((s.rewind.newslot F v index page).setBuffer v tb).buffers b = { s.buffers b with accesstime } := by
        rw [elsewhere b same, evict_other same, rewound]
      have fid : (((s.rewind.newslot F v index page).setBuffer v tb).buffers b).fid = (s.buffers b).fid := by rw [kept]
      have page : (((s.rewind.newslot F v index page).setBuffer v tb).buffers b).page = (s.buffers b).page := by rw [kept]
      exact Prod.ext fid page

end Newslot

section Steps

omit [DecidableEq Proc] in
theorem Sound.full (sound : s.Sound F P) : { s.rewind with out := none }.Sound F P := by
  have quiet : Quiet s { s.rewind with out := none } :=
    ⟨quiet_rewind.table, quiet_rewind.place, quiet_rewind.fid, quiet_rewind.saved, quiet_rewind.releases⟩
  refine sound.quiet quiet (sound.contents.rewind.of_same rfl fun _ => ⟨_, rfl⟩) (fun _ => id)
    (fun t _ => congrFun rewind_task t) (fun t _ there => by show t ∈ s.rewind.readers; rw [rewind_readers]; exact there)
    fun t _ b use lock => ?_
  obtain ⟨accesstime, same⟩ := s.rewind_buffer b
  show (s.rewind.buffers b).lock = _ ∧ (s.rewind.buffers b).fid = _ ∧ (s.rewind.buffers b).page = _
  rw [same]
  exact ⟨lock, rfl, rfl⟩

variable {a : BufferAction Proc D n} {t : Proc} {walk : Walk} {index : Nat}

omit [DecidableEq Proc] in
theorem reuses_set {b : Fin n} (others : ∀ m ≠ b, s'.buffers m = s.buffers m)
    (fid : (s'.buffers b).fid = (s.buffers b).fid) (page : (s'.buffers b).page = (s.buffers b).page) : s.Reuses F a s' := by
  intro m changed
  by_cases same : m = b
  · exact absurd (Prod.ext (same ▸ fid) (same ▸ page)) changed
  · rw [others m same] at changed
    exact absurd rfl changed

omit [DecidableEq Proc] in
theorem reuses_same (buffers : s'.buffers = s.buffers) : s.Reuses F a s' := by
  intro b changed
  rw [buffers] at changed
  exact absurd rfl changed

structure Keeps (F : CacheFiles) (s : DirBuffers Proc D n) (a : BufferAction Proc D n) (s' : DirBuffers Proc D n) : Prop where
  sound : s'.Sound F fun _ => True
  returned : s'.Returned F
  reuses : s.Reuses F a s'

omit [DecidableEq Proc] in
theorem newslot_buffer (F : CacheFiles) (s : DirBuffers Proc D n) (v : Fin n) (index page : Nat) :
    ∃ accesstime, (s.rewind.newslot F v index page).buffers v = { s.buffers v with
      fid := some index, inode := F.inode index, page, dirty := false, hashIndex := pHash index page, accesstime } := by
  obtain ⟨accesstime, rewound⟩ := s.rewind_buffer v
  refine ⟨(s.rewind.evict v).timecounter, (setBuffer_same _ _).trans ?_⟩
  rw [evict_same, rewound]

omit [DecidableEq Proc] in
theorem newslot_task (F : CacheFiles) (s : DirBuffers Proc D n) (v : Fin n) (index page : Nat) :
    (s.rewind.newslot F v index page).task = s.task := evict_task.trans rewind_task

omit [DecidableEq Proc] in
theorem Sound.fullKeeps (sound : s.Sound F fun _ => True) (a : BufferAction Proc D n) :
    s.Keeps F a { s.rewind with out := none } := by
  refine ⟨sound.full, .of_none rfl, fun b changed => ?_⟩
  obtain ⟨accesstime, same⟩ := s.rewind_buffer b
  refine absurd ?_ changed
  show ((s.rewind.buffers b).fid, (s.rewind.buffers b).page) = _
  rw [same]

theorem Sound.dRead {adc : DCache} (sound : s.Sound F fun _ => True) (met : s.Met (.dRead t adc page))
    (taken : s.dRead F t adc page = some s') : s.Keeps F (.dRead t adc page) s' := by
  unfold DirBuffers.dRead at taken
  split at taken
  swap
  · cases taken
  rename_i idle
  split at taken
  · cases taken
  rename_i readers
  have readers := not_not.mp readers
  unfold Met at met
  dsimp only at met
  split at taken
  · rename_i b found
    rw [found] at met
    obtain ⟨fits, clear⟩ := met
    dsimp only at taken
    split at taken
    · cases taken
    rename_i free
    have free : (s.buffers b).lock = none := Option.not_isSome_iff_eq_none.mp free
    have is := (Option.some_inj.mp taken).symm
    obtain ⟨sound', returned⟩ := sound.hit readers found free fits clear is
    have same : s'.buffers b = { s.buffers b with
        lockers := (s.buffers b).lockers + 1, accesstime := s.timecounter, callers := (s.buffers b).callers + 1 } := by
      rw [is]
      exact setBuffer_same _ _
    exact ⟨sound', returned, reuses_set (fun m other => by rw [is]; exact setBuffer_other other _) (by rw [same])
        (by rw [same])⟩
  rename_i missing
  rw [missing] at met
  have absent := find_none sound.chains missing
  split at taken
  · rename_i full
    cases taken
    exact sound.fullKeeps _
  rename_i v chosen
  have unused := slot_unused chosen
  have counts := sound.contents.counts v
  obtain ⟨callers, modifiers, free⟩ := counts.unused unused
  obtain ⟨accesstime, got⟩ := newslot_buffer F s v adc.index page
  dsimp only at taken
  rw [got] at taken
  split at taken
  · cases taken
    have kept := sound.newslot (fun _ => True) (.dRead t adc page) { s.buffers v with
        fid := none, inode := 0, page, dirty := false, hashIndex := pHash adc.index page, accesstime } s.task
      readers chosen absent met rfl rfl rfl
      ⟨counts.lockers, counts.modifiers, fun loading => absurd loading (Buffer.loading_free free), fun _ => rfl⟩
      (Buffer.written_free free) (fun _ has => nomatch has) fun _ _ => rfl
    rw [← newslot_task F s v adc.index page] at kept
    exact ⟨kept.1, .of_none rfl, kept.2⟩
  cases taken
  have kept := sound.newslot (· ≠ t) (.dRead t adc page) { s.buffers v with
      fid := some adc.index, inode := F.inode adc.index, page, dirty := false, hashIndex := pHash adc.index page, accesstime,
      lockers := (s.buffers v).lockers + 1, lock := some (t, .loading) } (update s.task t (.reading adc.index page v))
    readers chosen absent met rfl rfl rfl
    ⟨by rw [callers, unused]; rfl, counts.modifiers, fun _ => ⟨callers, rfl⟩, fun _ => rfl⟩
    (fun ⟨t', written⟩ => nomatch written) (fun _ has => ⟨(Option.some_inj.mp has).symm, rfl, .inl ⟨t, rfl⟩⟩)
    fun t' other => update_of_ne other _ _
  rw [← newslot_task F s v adc.index page] at kept
  refine ⟨kept.1.all (update_self _ _ _) ?_ trivial, .of_none rfl, kept.2⟩
  exact ⟨congrArg Buffer.lock (setBuffer_same v _), congrArg Buffer.page (setBuffer_same v _),
    congrArg Buffer.fid (setBuffer_same v _)⟩

theorem Sound.dNew {adc : DCache} (sound : s.Sound F fun _ => True) (met : s.Met (.dNew t adc page))
    (taken : s.dNew F t adc page = some s') : s.Keeps F (.dNew t adc page) s' := by
  unfold DirBuffers.dNew at taken
  split at taken
  swap
  · cases taken
  split at taken
  · cases taken
  rename_i may
  obtain ⟨readers, absent⟩ := not_or.mp may
  have readers := not_not.mp readers
  have absent (m : Fin n) : ¬ s.Bufmatch adc.index page m := fun matched => absent ⟨m, matched⟩
  split at taken
  · cases taken
    exact sound.fullKeeps _
  rename_i v chosen
  have unused := slot_unused chosen
  have counts := sound.contents.counts v
  obtain ⟨callers, modifiers, free⟩ := counts.unused unused
  obtain ⟨accesstime, got⟩ := newslot_buffer F s v adc.index page
  dsimp only at taken
  rw [got] at taken
  cases taken
  have kept := sound.newslot (fun _ => True) (.dNew t adc page) { s.buffers v with
      fid := some adc.index, inode := F.inode adc.index, page, dirty := false, hashIndex := pHash adc.index page, accesstime,
      lockers := (s.buffers v).lockers + 1, callers := (s.buffers v).callers + 1,
      modifiers := (s.buffers v).modifiers + 1 } s.task
    readers chosen absent met rfl rfl rfl
    ⟨by rw [callers, unused, free]; rfl, by rw [callers, modifiers], fun loading => absurd loading (Buffer.loading_free free),
      fun _ => rfl⟩
    (Buffer.written_free free) (fun _ has => ⟨(Option.some_inj.mp has).symm, rfl, .inr (Nat.succ_pos _)⟩) fun _ _ => rfl
  rw [← newslot_task F s v adc.index page] at kept
  exact ⟨kept.1, .of_none rfl, kept.2⟩

section OneBuffer

omit [DecidableEq Proc]

variable {u : DirBuffers Proc D n} {b : Fin n} {tb : Buffer Proc D} {readers : Finset Proc} {task : Proc → Task n}
  {out : Option (Return n)}

theorem quiet_setBuffer (same : u.buffers = s.buffers ∧ u.phTable = s.phTable)
    (saved : ∀ index page, s.saved index page ≤ u.saved index page)
    (releases : ∀ index page, s.releases index page ≤ u.releases index page)
    (place : tb.hashIndex = (s.buffers b).hashIndex ∧ tb.page = (s.buffers b).page)
    (fid : ∀ index, tb.fid = some index → (s.buffers b).fid = some index) :
    Quiet s { u.setBuffer b tb with readers := readers, task := task, out := out } := by
  have here : (u.setBuffer b tb).buffers b = tb := setBuffer_same b tb
  exact .setBuffer same.2 (fun m other => (setBuffer_other other tb).trans (congrFun same.1 m))
    (by rw [← here] at place; exact place) (by rw [← here] at fid; exact fid) saved releases

theorem Sound.setBuffer (sound : s.Sound F P) (Q : Proc → Prop) (contents : (u.setBuffer b tb).Contents F)
    (same : u.buffers = s.buffers ∧ u.phTable = s.phTable)
    (saved : ∀ index page, s.saved index page ≤ u.saved index page)
    (releases : ∀ index page, s.releases index page ≤ u.releases index page)
    (place : tb.hashIndex = (s.buffers b).hashIndex ∧ tb.page = (s.buffers b).page)
    (fid : ∀ index, tb.fid = some index → (s.buffers b).fid = some index) (fewer : ∀ t, Q t → P t)
    (others : ∀ t, Q t → task t = s.task t) (kept : ∀ t, Q t → t ∈ s.readers → t ∈ readers)
    (held : ∀ t, Q t → ∀ use, (s.buffers b).lock = some (t, use) → tb.lock = some (t, use) ∧ tb.fid = (s.buffers b).fid) :
    { u.setBuffer b tb with readers := readers, task := task, out := out }.Sound F Q := by
  refine sound.quiet (quiet_setBuffer same saved releases place fid) (contents.of_same rfl fun _ => ⟨_, rfl⟩) fewer others kept
    fun t q m use lock => ?_
  show ((u.setBuffer b tb).buffers m).lock = _ ∧ ((u.setBuffer b tb).buffers m).fid = _ ∧ ((u.setBuffer b tb).buffers m).page = _
  by_cases isB : m = b
  · rw [isB] at lock ⊢
    rw [setBuffer_same]
    obtain ⟨lock', fid'⟩ := held t q use lock
    exact ⟨lock', fid', place.2⟩
  · rw [setBuffer_other isB, same.1]
    exact ⟨lock, rfl, rfl⟩

theorem bufmatch_setBuffer {index : Nat} :
    (u.setBuffer b tb).Bufmatch index page b ↔ tb.page = page ∧ tb.fid = some index := by
  unfold Bufmatch
  rw [setBuffer_same]

theorem reuses_setBuffer {a : BufferAction Proc D n} (same : u.buffers = s.buffers) (fid : tb.fid = (s.buffers b).fid)
    (page : tb.page = (s.buffers b).page) :
    s.Reuses F a { u.setBuffer b tb with readers := readers, task := task, out := out } := by
  intro m changed
  refine absurd ?_ changed
  show (((u.setBuffer b tb).buffers m).fid, ((u.setBuffer b tb).buffers m).page) = _
  by_cases isB : m = b
  · rw [isB, setBuffer_same]
    exact Prod.ext fid page
  · rw [setBuffer_other isB, same]

end OneBuffer

theorem Sound.readIn (sound : s.Sound F fun _ => True) (taken : s.readIn F t = some s') : s.Keeps F (.readIn t) s' := by
  unfold DirBuffers.readIn at taken
  split at taken
  swap
  · cases taken
  rename_i index page b task
  have ok := sound.tasks t trivial
  rw [task] at ok
  obtain ⟨loading, rfl, has⟩ := ok
  cases taken
  have contents := sound.contents.readIn rfl loading has
  have known := (contents.agrees b index ((congrArg Buffer.fid (setBuffer_same b _)).trans has)).last
  rw [setBuffer_same] at known
  refine ⟨Sound.all (sound.setBuffer (· ≠ t) contents ⟨rfl, rfl⟩ (fun _ _ => le_rfl) (fun _ _ => le_rfl) ⟨rfl, rfl⟩
      (fun _ => id)
      (fun _ _ => trivial) (fun t' other => update_of_ne other _ _) (fun _ _ => id) fun t' other use lock => ?_)
    (update_self _ _ _) trivial trivial, ⟨fun index' page' b' given => ?_, fun _ given => (nomatch given),
    fun _ _ given => (nomatch given)⟩, reuses_setBuffer rfl rfl rfl⟩
  · cases loading.symm.trans lock
    exact absurd rfl other
  cases given
  show (s.setBuffer b _).Bufmatch _ _ _ ∧ (((s.setBuffer b _).buffers b).modifiers = 0 → ((s.setBuffer b _).buffers b).data = _)
  rw [bufmatch_setBuffer, setBuffer_same]
  exact ⟨⟨rfl, has⟩, known (Buffer.loading_free rfl)⟩

omit [DecidableEq Proc] in
theorem Sound.modify {b : Fin n} {data : D} {first : Bool} (sound : s.Sound F fun _ => True)
    (taken : s.modify b data first = some s') : s.Keeps F (.modify b data first) s' := by
  unfold DirBuffers.modify at taken
  by_cases may : if first = true then (s.buffers b).modifiers < (s.buffers b).callers else 0 < (s.buffers b).modifiers
  swap
  · rw [if_neg may] at taken
    cases taken
  rw [if_pos may] at taken
  cases taken
  exact ⟨sound.setBuffer _ (sound.contents.modify rfl data may) ⟨rfl, rfl⟩ (fun _ _ => le_rfl) (fun _ _ => le_rfl) ⟨rfl, rfl⟩
      (fun _ => id) (fun _ => id) (fun _ _ => rfl) (fun _ _ => id) fun _ _ _ lock => ⟨lock, rfl⟩,
    .of_none rfl, reuses_setBuffer rfl rfl rfl⟩

omit [DecidableEq Proc] in
theorem Sound.dRelease {b : Fin n} {flag : Bool} (sound : s.Sound F fun _ => True) (met : s.Met (.dRelease b flag))
    (taken : s.dRelease b flag = some s') : s.Keeps F (.dRelease b flag) s' := by
  unfold DirBuffers.dRelease at taken
  dsimp only at taken
  split at taken
  · cases taken
  rename_i free
  have free : (s.buffers b).lock = none := Option.not_isSome_iff_eq_none.mp free
  cases flag with
  | true =>
    rw [if_pos rfl] at taken
    split at taken
    · cases taken
    rename_i modified
    obtain ⟨index, has⟩ := Option.ne_none_iff_exists'.mp (met rfl)
    have contents := sound.contents.releaseModified rfl free modified has
    simp only [has] at taken contents
    cases taken
    refine ⟨sound.setBuffer _ contents ⟨rfl, rfl⟩ (fun _ _ => le_rfl) (fun index' page => ?_) ⟨rfl, rfl⟩ (fun _ has' => ?_)
      (fun _ => id) (fun _ _ => rfl) (fun _ _ => id) (fun _ _ _ lock => nomatch free.symm.trans lock),
      .of_none rfl, reuses_setBuffer rfl has.symm rfl⟩
    · by_cases same : (s.buffers b).page = page ∧ index = index'
      · obtain ⟨rfl, rfl⟩ := same
        show _ ≤ update s.releases index _ index _
        rw [update_page_same]
        exact Nat.le_succ _
      · exact (update_page s.releases _ same).ge
    · exact has.trans has'
  | false =>
    rw [if_neg Bool.false_ne_true] at taken
    split at taken
    · cases taken
    rename_i unmodified
    cases taken
    exact ⟨sound.setBuffer _ (sound.contents.release rfl free (Nat.lt_of_not_le unmodified)) ⟨rfl, rfl⟩ (fun _ _ => le_rfl)
        (fun _ _ => le_rfl) ⟨rfl, rfl⟩ (fun _ => id) (fun _ => id) (fun _ _ => rfl) (fun _ _ => id)
            fun _ _ _ lock => ⟨lock, rfl⟩,
      .of_none rfl, reuses_setBuffer rfl rfl rfl⟩

omit [DecidableEq Proc] in
theorem WalkOK.io {b : Fin n} (ok : s.WalkOK (.flushing walk .await b)) : s.WalkOK (.flushing walk .io b) := by
  cases walk with
  | all => trivial
  | entry index todo goal =>
    obtain ⟨listed, begun, ahead⟩ := ok
    exact ⟨listed, begun, fun x wanted => (ahead x wanted).imp_left fun both => ⟨Phase.noConfusion, both.2⟩⟩

omit [DecidableEq Proc] in
theorem WalkOK.resume {b : Fin n} (ok : s.WalkOK (.flushing walk .io b))
    (done : ∀ index todo goal, walk = .entry index todo goal → (∀ page, goal page ≤ s.releases index page) →
      ¬ s.Wanted index goal b) : s.WalkOK (.flushing walk .resume b) := by
  cases walk with
  | all => trivial
  | entry index todo goal =>
    obtain ⟨listed, begun, ahead⟩ := ok
    refine ⟨listed, begun, fun x wanted => .inr ((ahead x wanted).resolve_left ?_)⟩
    rintro ⟨-, rfl⟩
    exact done index todo goal rfl begun wanted

theorem Sound.lock (sound : s.Sound F fun _ => True) (met : s.Met (.lock t)) (taken : s.lock t = some s') :
    s.Keeps F (.lock t) s' := by
  unfold DirBuffers.lock at taken
  split at taken
  swap
  · cases taken
  rename_i walk b task
  dsimp only at taken
  split at taken
  · cases taken
  rename_i free
  have free : (s.buffers b).lock = none := Option.not_isSome_iff_eq_none.mp free
  unfold Met at met
  dsimp only at met
  rw [task] at met
  cases taken
  have walks := sound.walks t trivial
  rw [task] at walks
  refine ⟨Sound.all (sound.setBuffer (· ≠ t) (sound.contents.lock rfl free met t) ⟨rfl, rfl⟩ (fun _ _ => le_rfl)
      (fun _ _ => le_rfl) ⟨rfl, rfl⟩ (fun _ => id) (fun _ _ => trivial) (fun t' other => update_of_ne other _ _)
      (fun _ other there => Finset.mem_erase.mpr ⟨other, there⟩) fun t' other use lock => nomatch free.symm.trans lock)
    (update_self _ _ _) ⟨.flushing, congrArg Buffer.lock (setBuffer_same b _), Use.noConfusion⟩ ?_,
    .of_none rfl, reuses_setBuffer rfl rfl rfl⟩
  refine Quiet.walk ?_ walks.io
  exact quiet_setBuffer ⟨rfl, rfl⟩ (fun _ _ => le_rfl) (fun _ _ => le_rfl) ⟨rfl, rfl⟩ fun _ => id

theorem Sound.unlock (sound : s.Sound F fun _ => True) (taken : s.unlock t = some s') : s.Keeps F (.unlock t) s' := by
  unfold DirBuffers.unlock at taken
  split at taken
  swap
  · cases taken
  rename_i walk b task
  have ok := sound.tasks t trivial
  have walks := sound.walks t trivial
  rw [task] at ok walks
  obtain ⟨use, holds, unloading⟩ := ok
  dsimp only at taken
  split at taken
  · cases taken
  rename_i through
  have done : (s.buffers b).dirty = false ∨ use = .written := by
    refine or_iff_not_imp_left.mpr fun dirty => ?_
    cases use with
    | loading => exact absurd rfl unloading
    | flushing => exact absurd ⟨Bool.eq_true_of_not_eq_false dirty, holds⟩ through
    | written => rfl
  cases taken
  refine ⟨Sound.all (sound.setBuffer (· ≠ t) (sound.contents.unlock rfl holds done unloading) ⟨rfl, rfl⟩ (fun _ _ => le_rfl)
      (fun _ _ => le_rfl) ⟨rfl, rfl⟩ (fun _ => id) (fun _ _ => trivial) (fun t' other => update_of_ne other _ _)
      (fun _ _ => id) fun t' other use' lock => ?_)
    (update_self _ _ _) trivial ?_, .of_none rfl, reuses_setBuffer rfl rfl rfl⟩
  · cases holds.symm.trans lock
    exact absurd rfl other
  refine Quiet.walk ?_ (walks.resume fun index todo goal _ begun wanted => ?_)
  · exact quiet_setBuffer ⟨rfl, rfl⟩ (fun _ _ => le_rfl) (fun _ _ => le_rfl) ⟨rfl, rfl⟩ fun _ => id
  obtain ⟨has, late⟩ := wanted
  have late := late.trans_le (begun _)
  rcases done with clean | rfl
  · obtain ⟨m, matched, dirty⟩ := (sound.contents.pages index _).dirty late
    rw [sound.contents.unique index _ m b matched ⟨rfl, has⟩, clean] at dirty
    cases dirty
  · exact absurd ((sound.contents.agrees b index has).written ⟨t, holds⟩) late.ne

theorem Sound.write {t : Proc} (sound : s.Sound F fun _ => True) (taken : s.write t = some s') : s.Keeps F (.write t) s' := by
  unfold DirBuffers.write at taken
  split at taken
  swap
  · cases taken
  rename_i walk b task
  have walks := sound.walks t trivial
  rw [task] at walks
  dsimp only at taken
  split at taken
  swap
  · cases taken
  rename_i may
  obtain ⟨dirty, holds⟩ := may
  cases taken
  refine ⟨Sound.all (sound.setBuffer (· ≠ t) (sound.contents.write rfl holds dirty) ⟨rfl, rfl⟩ (sound.contents.saved_le b)
      (fun _ _ => le_rfl) ⟨rfl, rfl⟩ (fun _ => id) (fun _ _ => trivial) (fun _ _ => rfl) (fun _ _ => id)
          fun t' other use lock => ?_)
    task ⟨.written, congrArg Buffer.lock (setBuffer_same b _), Use.noConfusion⟩ ?_, .of_none rfl, reuses_setBuffer rfl rfl rfl⟩
  · cases holds.symm.trans lock
    exact absurd rfl other
  · refine Quiet.walk ?_ walks
    exact quiet_setBuffer ⟨rfl, rfl⟩ (sound.contents.saved_le b) (fun _ _ => le_rfl) ⟨rfl, rfl⟩ fun _ => id

omit [DecidableEq Proc] in
theorem Sound.fewer {Q : Proc → Prop} (sound : s.Sound F P) (fewer : ∀ t, Q t → P t) : s.Sound F Q :=
  ⟨sound.chains, sound.contents, fun t q => sound.tasks t (fewer t q), fun t q => sound.walks t (fewer t q)⟩

theorem zapFrom_buffers {todo : List Nat} {rest : List (Fin n)} : (s.zapFrom t index todo rest).buffers = s.buffers := by
  unfold zapFrom
  split <;> rfl

theorem flushFrom_buffers {rest : List (Fin n)} : (s.flushFrom t walk rest).buffers = s.buffers := by
  unfold flushFrom
  split <;> rfl

omit [DecidableEq Proc] in
theorem Chains.all_ahead (x : Fin n) : (s.buffers x).page % 4 ∈ [0, 1, 2, 3] := by
  simp only [mem_cons, not_mem_nil, or_false]
  omega

theorem Sound.dZap (sound : s.Sound F fun _ => True) (taken : s.dZap t index = some s') : s.Keeps F (.dZap t index) s' := by
  unfold DirBuffers.dZap at taken
  split at taken
  swap
  · cases taken
  cases taken
  obtain ⟨sound', returned⟩ :=
    (sound.fewer fun _ _ => trivial).zapFrom ⟨0, nil_suffix⟩ fun x _ => .inr (Chains.all_ahead x)
  exact ⟨sound', returned, reuses_same zapFrom_buffers⟩

theorem Sound.zapped {todo : List Nat} {b : Fin n} {u z : DirBuffers Proc D n}
    (sound : s.Sound F fun _ => True) (task : s.task t = .zapping index todo b) (free : (s.buffers b).lock = none)
    (is : z = u.setBuffer b { s.buffers b with fid := none, inode := 0, dirty := false }) (contents : z.Contents F)
    (same : u.buffers = s.buffers ∧ u.phTable = s.phTable ∧ u.releases = s.releases ∧ u.task = s.task ∧ u.readers = s.readers)
    (saved : ∀ index page, s.saved index page ≤ u.saved index page) :
    s.Keeps F (.zap t) (z.zapFrom t index todo (z.rest b)) := by
  obtain ⟨buffers, table, releases, tasks, readers⟩ := same
  have walks := sound.walks t trivial
  rw [task] at walks
  subst is
  have there : ((u.setBuffer b { s.buffers b with fid := none, inode := 0, dirty := false }).buffers b).fid = none :=
    congrArg Buffer.fid (setBuffer_same _ _)
  have quiet : Quiet s (u.setBuffer b { s.buffers b with fid := none, inode := 0, dirty := false }) :=
    quiet_setBuffer ⟨buffers, table⟩ saved (fun _ _ => by rw [releases]) ⟨rfl, rfl⟩ fun _ has => nomatch has
  have others : (u.setBuffer b { s.buffers b with fid := none, inode := 0, dirty := false }).Sound F (· ≠ t) :=
    sound.setBuffer _ contents ⟨buffers, table⟩ saved (fun _ _ => by rw [releases]) ⟨rfl, rfl⟩ (fun _ has => nomatch has)
      (fun _ _ => trivial) (fun t' _ => congrFun tasks t') (fun t' _ there => by show t' ∈ u.readers; rw [readers]; exact there)
      fun t' _ use lock => nomatch free.symm.trans lock
  have ahead (x : Fin n)
      (has : ((u.setBuffer b { s.buffers b with fid := none, inode := 0, dirty := false }).buffers x).fid = some index) :
      (u.setBuffer b { s.buffers b with fid := none, inode := 0, dirty := false }).Ahead todo b x := by
    have other : x ≠ b := by
      rintro rfl
      exact nomatch there.symm.trans has
    exact quiet.ahead.mpr ((walks x (quiet.fid x index has)).resolve_left other)
  obtain ⟨sound', returned⟩ := others.zapFrom ⟨_, behind_suffix⟩ ahead
  refine ⟨sound', returned, fun m changed => ?_⟩
  rw [zapFrom_buffers] at changed ⊢
  by_cases isB : m = b
  · rw [isB]
    exact .inl ⟨⟨t, rfl⟩, there⟩
  · rw [setBuffer_other isB, buffers] at changed
    exact absurd rfl changed

theorem Sound.zap (sound : s.Sound F fun _ => True) (taken : s.zap t = some s') : s.Keeps F (.zap t) s' := by
  unfold DirBuffers.zap at taken
  split at taken
  swap
  · cases taken
  rename_i index todo b task
  dsimp only at taken
  split at taken
  · cases taken
  rename_i free
  have free : (s.buffers b).lock = none := Option.not_isSome_iff_eq_none.mp free
  cases taken
  cases has : (s.buffers b).fid with
  | none => exact sound.zapped task free rfl (sound.contents.zapOrphan rfl has) ⟨rfl, rfl, rfl, rfl, rfl⟩ fun _ _ => le_rfl
  | some index' =>
    refine sound.zapped task free rfl (sound.contents.zap rfl free has) ⟨rfl, rfl, rfl, rfl, rfl⟩ fun i page => ?_
    by_cases same : (s.buffers b).page = page ∧ index' = i
    · obtain ⟨rfl, rfl⟩ := same
      show _ ≤ update s.saved index' _ index' _
      rw [update_page_same]
      exact (sound.contents.pages index' _).le
    · exact (update_page s.saved _ same).ge

theorem Sound.flushAll (sound : s.Sound F (· ≠ t)) (rest : List (Fin n)) :
    (s.flushFrom t .all rest).Sound F (fun _ => True) ∧ (s.flushFrom t .all rest).Returned F :=
  sound.flushFrom nofun

variable (sound : s.Sound F fun _ => True)
include sound

theorem Sound.dFlush (taken : s.dFlush t = some s') : s.Keeps F (.dFlush t) s' := by
  unfold DirBuffers.dFlush at taken
  split at taken
  swap
  · cases taken
  cases taken
  have others : s.Sound F (· ≠ t) := sound.fewer fun _ _ => trivial
  obtain ⟨sound', returned⟩ := others.flushAll (List.finRange n)
  exact ⟨sound', returned, reuses_same flushFrom_buffers⟩

theorem Sound.dFlushDCache
    (taken : s.dFlushDCache t index = some s') : s.Keeps F (.dFlushDCache t index) s' := by
  unfold DirBuffers.dFlushDCache at taken
  split at taken
  swap
  · cases taken
  cases taken
  have begun (index' : Nat) (todo : List Nat) (goal : Nat → Nat)
      (is : Walk.entry index [0, 1, 2, 3] (s.releases index) = .entry index' todo goal) :
      (∃ i, [] <:+ s.phTable i) ∧ (∀ page, goal page ≤ s.releases index' page) ∧
        ∀ x, s.Wanted index' goal x → x ∈ [] ∨ (s.buffers x).page % 4 ∈ todo := by
    cases is
    exact ⟨⟨0, nil_suffix⟩, fun _ => le_rfl, fun x _ => .inr (Chains.all_ahead x)⟩
  obtain ⟨sound', returned⟩ := (sound.fewer fun t' (_ : t' ≠ t) => trivial).flushFrom begun
  exact ⟨sound', returned, reuses_same flushFrom_buffers⟩

theorem Sound.goOn (taken : s.goOn t = some s') : s.Keeps F (.goOn t) s' := by
  have others : s.Sound F (· ≠ t) := sound.fewer fun _ _ => trivial
  have walks := sound.walks t trivial
  unfold DirBuffers.goOn at taken
  split at taken
  · cases taken
    obtain ⟨sound', returned⟩ := others.flushAll (behind _ (List.finRange n))
    exact ⟨sound', returned, reuses_same flushFrom_buffers⟩
  · rename_i walk b _ task
    rw [task] at walks
    cases taken
    have ahead (index : Nat) (todo : List Nat) (goal : Nat → Nat) (is : walk = .entry index todo goal) :
        (∃ i, s.rest b <:+ s.phTable i) ∧ (∀ page, goal page ≤ s.releases index page) ∧
          ∀ x, s.Wanted index goal x → x ∈ s.rest b ∨ (s.buffers x).page % 4 ∈ todo := by
      subst is
      obtain ⟨-, begun, ahead⟩ := walks
      exact ⟨⟨_, behind_suffix⟩, begun, fun x wanted => (ahead x wanted).resolve_left fun both => both.1 rfl⟩
    obtain ⟨sound', returned⟩ := others.flushFrom ahead
    exact ⟨sound', returned, reuses_same flushFrom_buffers⟩
  · cases taken

theorem Sound.step (met : s.Met a) (taken : s.step F a = some s') : s.Keeps F a s' := by
  cases a with
  | dRead t adc page => exact sound.dRead met taken
  | readIn t => exact sound.readIn taken
  | dNew t adc page => exact sound.dNew met taken
  | modify b data first => exact sound.modify taken
  | dRelease b flag => exact sound.dRelease met taken
  | dZap t index => exact sound.dZap taken
  | zap t => exact sound.zap taken
  | dFlush t => exact sound.dFlush taken
  | dFlushDCache t index => exact sound.dFlushDCache taken
  | lock t => exact sound.lock met taken
  | write t => exact sound.write taken
  | unlock t => exact sound.unlock taken
  | goOn t => exact sound.goOn taken

end Steps

omit [DecidableEq Proc] in
theorem Start.sound (start : s.Start) : s.Sound F fun _ => True := by
  have empty (b : Fin n) : (s.buffers b).fid = none := by rw [start.buffers b]
  have absent {index page : Nat} {b : Fin n} (matched : s.Bufmatch index page b) : False :=
    nomatch (empty b).symm.trans matched.2
  refine ⟨⟨fun i => ?_, fun i b there => ?_, fun b index has => nomatch (empty b).symm.trans has⟩,
    ⟨fun _ _ _ _ here => (absent here).elim, fun b => ?_, fun b index has => (nomatch (empty b).symm.trans has),
      fun b index has => (nomatch (empty b).symm.trans has), fun index page => ?_⟩, fun t _ => ?_, fun t _ => ?_⟩
  · rw [start.phTable]
    exact nodup_nil
  · rw [start.phTable] at there
    cases there
  · rw [start.buffers b]
    exact ⟨rfl, le_rfl, fun loading => absurd loading (Buffer.loading_free rfl), fun _ => rfl⟩
  · refine ⟨?_, fun late => ?_, fun _ x released => ?_⟩
    · rw [start.saved]
      exact Nat.zero_le _
    · rw [start.releases] at late
      cases late
    · rw [start.released] at released
      cases released
  · rw [start.task]
    trivial
  · rw [start.task]
    trivial

structure Coherent (F : CacheFiles) (s : DirBuffers Proc D n) : Prop where
  unique : ∀ index page b b', s.Bufmatch index page b → s.Bufmatch index page b' → b = b'
  returned : s.Returned F
  inFile : ∀ index page, s.saved index page = s.releases index page →
    (∀ b, s.Bufmatch index page b → (s.buffers b).modifiers = 0) →
    ∀ x, s.released index page = some x → s.files (F.inode index) page = x

omit [DecidableEq Proc] in
theorem Contents.inFile (c : s.Contents F) {index : Nat} (saved : s.saved index page = s.releases index page)
    (unmodified : ∀ b, s.Bufmatch index page b → (s.buffers b).modifiers = 0) {x : D}
    (released : s.released index page = some x) : s.files (F.inode index) page = x := by
  by_cases known : ∃ b, s.Bufmatch index page b ∧ ¬ (s.buffers b).Loading
  swap
  · exact (c.pages index page).file (fun b matched => by_contra fun loaded => known ⟨b, matched, loaded⟩) x released
  obtain ⟨b, matched, loaded⟩ := known
  obtain ⟨rfl, has⟩ := matched
  have idle := unmodified b ⟨rfl, has⟩
  have agrees := c.agrees b index has
  have last := agrees.last loaded idle
  have clean : (s.buffers b).dirty = false ∨ (s.buffers b).Written := by
    by_contra neither
    obtain ⟨dirty, unwritten⟩ := not_or.mp neither
    exact absurd saved (agrees.unsaved (Bool.eq_true_of_not_eq_false dirty) unwritten).ne
  have file := agrees.clean loaded idle clean
  rw [last] at file
  change (s.released index _).getD _ = s.files (F.inode index) _ at file
  rw [released] at file
  exact file.symm

end DirBuffers

open DirBuffers

/-- In every run in which no `DFlushDCache` is passed by a buffer it has to flush while it does not have
`afs_bufferLock`, and callers keep to the lock of the entry, the buffers are coherent. -/
theorem dir_buffers_coherent {Proc D : Type} {n : Nat} [DecidableEq Proc] (F : CacheFiles) (s : DirBuffers Proc D n)
    (reached : (dirBuffers F).ReachWhere Met s) :
    s.Coherent F ∧ ∀ a s', s.Met a → s.step F a = some s' → s.Reuses F a s' := by
  have known : s.Sound F (fun _ => True) ∧ s.Returned F := by
    apply reached.invariant
    · exact fun s start => ⟨Start.sound start, .of_none start.out⟩
    · intro s a s' known met taken
      have kept := known.1.step met taken
      exact ⟨kept.sound, kept.returned⟩
  obtain ⟨sound, returned⟩ := known
  exact ⟨⟨sound.contents.unique, returned, fun index page saved unmodified x released =>
    sound.contents.inFile saved unmodified released⟩, fun a s' met taken => (sound.step met taken).reuses⟩

section Decide

variable {Proc D : Type} {n : Nat} [DecidableEq Proc] (s : DirBuffers Proc D n)

instance (t : Proc) (m : Fin n) : Decidable (s.Passed t m) := by
  unfold Passed
  split <;> infer_instance

instance (t : Proc) (v : Fin n) : Decidable (s.Derailed t v) := by
  unfold Derailed
  split <;> infer_instance

instance [Fintype Proc] (lp : Option (Fin n)) (i : Nat) : Decidable (s.KeepsWalks lp i) := by
  unfold KeepsWalks
  split <;> infer_instance

instance [Fintype Proc] (a : BufferAction Proc D n) : Decidable (s.Met a) := by
  unfold Met
  split
  · split <;> infer_instance
  · infer_instance
  · infer_instance
  · split <;> infer_instance
  · infer_instance

end Decide

def files : CacheFiles := ⟨Nat.succ, Nat.succ_injective⟩

def twoBuffers : DirBuffers (Fin 2) Nat 2 where
  buffers _ := { page := 0, data := 0 }
  phTable _ := []
  timecounter := 1
  files _ _ := 7
  readers := ∅
  task _ := .idle
  released _ _ := none
  releases _ _ := 0
  saved _ _ := 0
  out := none

theorem twoBuffers_start : twoBuffers.Start := ⟨fun _ => rfl, rfl, rfl, rfl, rfl, rfl, rfl, rfl, rfl⟩

def newPage (page data : Nat) (b : Fin 2) : List (BufferAction (Fin 2) Nat 2) :=
  [.dNew 0 ⟨0, 8192⟩ page, .modify b data false, .dRelease b true]

def flushes : List (BufferAction (Fin 2) Nat 2) :=
  newPage 0 5 0 ++ newPage 4 6 1 ++ [.dFlushDCache 1 0, .lock 1, .write 1, .unlock 1, .dRead 0 ⟨0, 8192⟩ 4, .goOn 1, .lock 1,
    .write 1, .unlock 1, .goOn 1]

def flushed : DirBuffers (Fin 2) Nat 2 := ((dirBuffers files).runWhere Met twoBuffers flushes).get (by decide +kernel)

theorem dir_buffers_coherent_flushed : flushed.Coherent files ∧ flushed.files 1 0 = 5 ∧ flushed.files 1 4 = 6 := by
  have ran : (dirBuffers files).runWhere Met twoBuffers flushes = some flushed := (Option.some_get _).symm
  exact ⟨(dir_buffers_coherent files flushed (Machine.ReachWhere.runWhere (.start twoBuffers_start) ran)).1,
    by decide +kernel, by decide +kernel⟩

def passes : List (BufferAction (Fin 2) Nat 2) :=
  newPage 0 5 0 ++ newPage 4 6 1 ++ [.dFlushDCache 1 0, .lock 1, .write 1, .unlock 1, .dRead 0 ⟨0, 8192⟩ 0, .goOn 1]

def passed : DirBuffers (Fin 2) Nat 2 := ((dirBuffers files).run twoBuffers passes).get (by decide +kernel)

/-- `DFlushDCache` returns without having flushed a page. -/
theorem flush_skips_page : ¬ ∀ s : DirBuffers (Fin 2) Nat 2, (dirBuffers files).Reach s → s.Coherent files := by
  intro all
  have ran : (dirBuffers files).run twoBuffers passes = some passed := (Option.some_get _).symm
  have coherent := all passed (Machine.Reach.run (.start twoBuffers_start) ran)
  obtain ⟨index, goal, out, late⟩ : ∃ index goal, passed.out = some (.flushed index goal) ∧ passed.saved index 0 < goal 0 :=
    ⟨0, passed.releases 0, rfl, by decide +kernel⟩
  exact absurd (coherent.returned.flushed index goal out 0) (Nat.not_le_of_lt late)

end OpenAFS.Afs
