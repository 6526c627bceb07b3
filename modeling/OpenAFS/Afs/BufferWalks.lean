import OpenAFS.Afs.BufferContents

namespace OpenAFS.Afs

open Function (update update_self update_of_ne)
open Lib List

namespace DirBuffers

variable {Proc D : Type} {n : Nat} {F : CacheFiles} {s s' : DirBuffers Proc D n}

structure Chains (s : DirBuffers Proc D n) : Prop where
  nodup : ∀ i, (s.phTable i).Nodup
  listed : ∀ i, ∀ b ∈ s.phTable i, (s.buffers b).hashIndex = i
  hashed : ∀ b index, (s.buffers b).fid = some index →
    b ∈ s.phTable (s.buffers b).hashIndex ∧ (s.buffers b).hashIndex = pHash index (s.buffers b).page

/-- A buffer of the entry that holds a modification which the call has to bring to the cache file. -/
def Wanted (s : DirBuffers Proc D n) (index : Nat) (goal : Nat → Nat) (x : Fin n) : Prop :=
  (s.buffers x).fid = some index ∧ s.saved index (s.buffers x).page < goal (s.buffers x).page

instance (index : Nat) (goal : Nat → Nat) (x : Fin n) : Decidable (s.Wanted index goal x) :=
  inferInstanceAs (Decidable (_ ∧ _))

def Ahead (s : DirBuffers Proc D n) (todo : List Nat) (b x : Fin n) : Prop :=
  x ∈ s.rest b ∨ (s.buffers x).page % 4 ∈ todo

def WalkOK (s : DirBuffers Proc D n) : Task n → Prop
  | .zapping index todo b => ∀ x, (s.buffers x).fid = some index → x = b ∨ s.Ahead todo b x
  | .flushing (.entry index todo goal) phase b =>
    b ∈ s.phTable (s.buffers b).hashIndex ∧ (∀ page, goal page ≤ s.releases index page) ∧
      ∀ x, s.Wanted index goal x → phase ≠ .resume ∧ x = b ∨ s.Ahead todo b x
  | _ => True

/-- What is so when an operation has returned. A page that a caller has changed and not released yet, or has just made, is
read as it is. -/
structure Returned (F : CacheFiles) (s : DirBuffers Proc D n) : Prop where
  page : ∀ index page b, s.out = some (.page index page b) → s.Bufmatch index page b ∧
    ((s.buffers b).modifiers = 0 → (s.buffers b).data = (s.released index page).getD (s.files (F.inode index) page))
  zapped : ∀ index, s.out = some (.zapped index) → ∀ b, (s.buffers b).fid ≠ some index
  flushed : ∀ index goal, s.out = some (.flushed index goal) → ∀ page, goal page ≤ s.saved index page

theorem Returned.of_none (none : s.out = none) : s.Returned F where
  page _ _ _ some := nomatch none.symm.trans some
  zapped _ some := nomatch none.symm.trans some
  flushed _ _ some := nomatch none.symm.trans some

def TaskOK (s : DirBuffers Proc D n) (t : Proc) : Task n → Prop
  | .reading index page b => (s.buffers b).lock = some (t, .loading) ∧ s.Bufmatch index page b
  | .zapping _ _ _ => t ∈ s.readers
  | .flushing _ .await _ => t ∈ s.readers
  | .flushing _ .io b => ∃ use, (s.buffers b).lock = some (t, use) ∧ use ≠ .loading
  | _ => True

/-- The invariant, of the processes that have a property. -/
structure Sound (F : CacheFiles) (s : DirBuffers Proc D n) (P : Proc → Prop) : Prop where
  chains : s.Chains
  contents : s.Contents F
  tasks : ∀ t, P t → s.TaskOK t (s.task t)
  walks : ∀ t, P t → s.WalkOK (s.task t)

structure Quiet (s s' : DirBuffers Proc D n) : Prop where
  table : s'.phTable = s.phTable
  place : ∀ b, (s'.buffers b).hashIndex = (s.buffers b).hashIndex ∧ (s'.buffers b).page = (s.buffers b).page
  fid : ∀ b index, (s'.buffers b).fid = some index → (s.buffers b).fid = some index
  saved : ∀ index page, s.saved index page ≤ s'.saved index page
  releases : ∀ index page, s.releases index page ≤ s'.releases index page

theorem Quiet.chains (quiet : Quiet s s') (chains : s.Chains) : s'.Chains := by
  constructor
  · rw [quiet.table]
    exact chains.nodup
  · intro i b there
    rw [quiet.table] at there
    rw [(quiet.place b).1]
    exact chains.listed i b there
  · intro b index has
    rw [quiet.table, (quiet.place b).1, (quiet.place b).2]
    exact chains.hashed b index (quiet.fid b index has)

variable {todo : List Nat} {b x v : Fin n} {index i : Nat} {goal : Nat → Nat} {rest : List (Fin n)}

theorem Quiet.ahead (quiet : Quiet s s') : s'.Ahead todo b x ↔ s.Ahead todo b x := by
  unfold Ahead rest
  rw [quiet.table, (quiet.place b).1, (quiet.place x).2]

theorem Quiet.wanted (quiet : Quiet s s') (wanted : s'.Wanted index goal x) : s.Wanted index goal x := by
  refine ⟨quiet.fid x index wanted.1, ?_⟩
  have late := wanted.2
  rw [(quiet.place x).2] at late
  exact (quiet.saved index _).trans_lt late

theorem Quiet.walk (quiet : Quiet s s') {task : Task n} (walk : s.WalkOK task) : s'.WalkOK task := by
  match task with
  | .idle => trivial
  | .reading _ _ _ => trivial
  | .flushing .all _ _ => trivial
  | .zapping index todo b =>
    intro x has
    rw [quiet.ahead]
    exact walk x (quiet.fid x index has)
  | .flushing (.entry index todo goal) phase b =>
    obtain ⟨listed, begun, ahead⟩ := walk
    refine ⟨?_, fun page => (begun page).trans (quiet.releases index page), fun x wanted => ?_⟩
    · rw [quiet.table, (quiet.place b).1]
      exact listed
    · rw [quiet.ahead]
      exact ahead x (quiet.wanted wanted)

theorem TaskOK.kept {t : Proc} {task : Task n} (ok : s.TaskOK t task) (readers : t ∈ s.readers → t ∈ s'.readers)
    (held : ∀ b use, (s.buffers b).lock = some (t, use) → (s'.buffers b).lock = some (t, use) ∧
      (s'.buffers b).fid = (s.buffers b).fid ∧ (s'.buffers b).page = (s.buffers b).page) : s'.TaskOK t task := by
  match task with
  | .idle => trivial
  | .reading index page b =>
    obtain ⟨loading, matched⟩ := ok
    obtain ⟨lock, fid, page⟩ := held b _ loading
    exact ⟨lock, page.trans matched.1, fid.trans matched.2⟩
  | .zapping _ _ _ => exact readers ok
  | .flushing _ .await _ => exact readers ok
  | .flushing _ .io b =>
    obtain ⟨use, lock, unloading⟩ := ok
    exact ⟨use, (held b use lock).1, unloading⟩
  | .flushing _ .resume _ => trivial

theorem Sound.quiet {P Q : Proc → Prop} (sound : s.Sound F P) (quiet : Quiet s s') (contents : s'.Contents F)
    (fewer : ∀ t, Q t → P t) (task : ∀ t, Q t → s'.task t = s.task t) (readers : ∀ t, Q t → t ∈ s.readers → t ∈ s'.readers)
    (held : ∀ t, Q t → ∀ b use, (s.buffers b).lock = some (t, use) → (s'.buffers b).lock = some (t, use) ∧
      (s'.buffers b).fid = (s.buffers b).fid ∧ (s'.buffers b).page = (s.buffers b).page) : s'.Sound F Q where
  chains := quiet.chains sound.chains
  contents := contents
  tasks t q := by
    rw [task t q]
    exact (sound.tasks t (fewer t q)).kept (readers t q) (held t q)
  walks t q := by
    rw [task t q]
    exact quiet.walk (sound.walks t (fewer t q))

theorem Quiet.setBuffer (table : s'.phTable = s.phTable) (others : ∀ m ≠ b, s'.buffers m = s.buffers m)
    (place : (s'.buffers b).hashIndex = (s.buffers b).hashIndex ∧ (s'.buffers b).page = (s.buffers b).page)
    (fid : ∀ index, (s'.buffers b).fid = some index → (s.buffers b).fid = some index)
    (saved : ∀ index page, s.saved index page ≤ s'.saved index page)
    (releases : ∀ index page, s.releases index page ≤ s'.releases index page) : Quiet s s' := by
  refine ⟨table, fun m => ?_, fun m index => ?_, saved, releases⟩
  · by_cases same : m = b
    · exact same ▸ place
    · rw [others m same]
      exact ⟨rfl, rfl⟩
  by_cases same : m = b
  · exact same ▸ fid index
  · rw [others m same]
    exact id

theorem pHash_page (index page : Nat) : pHash index (page % 4) = pHash index page := by
  unfold pHash
  rw [Nat.and_two_pow_sub_one_eq_mod _ 2, Nat.and_two_pow_sub_one_eq_mod _ 2, Nat.mod_mod]

theorem Chains.first (chains : s.Chains) (suffix : rest <:+ s.phTable i)
    (found : rest.find? (fun b => (s.buffers b).fid = some index) = some b) :
    (s.buffers b).fid = some index ∧ ∀ x ∈ rest, (s.buffers x).fid = some index → x = b ∨ x ∈ s.rest b := by
  have there := mem_of_find?_eq_some found
  have hash := chains.listed i b (suffix.subset there)
  refine ⟨by simpa using find?_some found, fun x ahead has => ?_⟩
  refine (mem_behind_of_find found ahead (decide_eq_true has)).imp_right fun later => ?_
  unfold DirBuffers.rest
  rw [hash, behind_of_suffix suffix (chains.nodup i) there]
  exact later

theorem Chains.seek_some (chains : s.Chains) {todo' : List Nat}
    (found : s.seek index todo rest = some (todo', b)) (suffix : ∃ i, rest <:+ s.phTable i) :
    (s.buffers b).fid = some index ∧
      ∀ x, (s.buffers x).fid = some index → x ∈ rest ∨ (s.buffers x).page % 4 ∈ todo → x = b ∨ s.Ahead todo' b x := by
  obtain ⟨i, suffix⟩ := suffix
  induction todo generalizing rest i with
  | nil =>
    unfold seek at found
    cases first : rest.find? fun b => (s.buffers b).fid = some index with
    | none => rw [first] at found; cases found
    | some b' =>
      rw [first] at found
      cases found
      obtain ⟨has, later⟩ := chains.first suffix first
      exact ⟨has, fun x has' ahead => (later x (ahead.resolve_right not_mem_nil) has').imp_right .inl⟩
  | cons j todo ih =>
    unfold seek at found
    cases first : rest.find? fun b => (s.buffers b).fid = some index with
    | none =>
      rw [first] at found
      obtain ⟨has, ahead⟩ := ih found _ (suffix_refl _)
      refine ⟨has, fun x has' either => ahead x has' ?_⟩
      rcases either with there | later
      · exact absurd (decide_eq_true has') (List.find?_eq_none.mp first x there)
      rcases List.mem_cons.mp later with same | later
      · obtain ⟨there, hash⟩ := chains.hashed x index has'
        rw [← pHash_page, same] at hash
        exact .inl (hash ▸ there)
      · exact .inr later
    | some b' =>
      rw [first] at found
      cases found
      obtain ⟨has, later⟩ := chains.first suffix first
      exact ⟨has, fun x has' ahead =>
        ahead.elim (fun there => (later x there has').imp_right .inl) fun later => .inr (.inr later)⟩

theorem Chains.seek_none (chains : s.Chains) (ends : s.seek index todo rest = none) (has : (s.buffers x).fid = some index) :
    ¬ (x ∈ rest ∨ (s.buffers x).page % 4 ∈ todo) := by
  induction todo generalizing rest with
  | nil =>
    unfold seek at ends
    cases first : rest.find? fun b => (s.buffers b).fid = some index with
    | some b => rw [first] at ends; cases ends
    | none =>
      rintro (there | later)
      · exact absurd (decide_eq_true has) (List.find?_eq_none.mp first x there)
      · exact absurd later not_mem_nil
  | cons j todo ih =>
    unfold seek at ends
    cases first : rest.find? fun b => (s.buffers b).fid = some index with
    | some b => rw [first] at ends; cases ends
    | none =>
      rw [first] at ends
      rintro (there | later)
      · exact absurd (decide_eq_true has) (List.find?_eq_none.mp first x there)
      refine ih ends ?_
      rcases List.mem_cons.mp later with same | later
      · obtain ⟨there, hash⟩ := chains.hashed x index has
        rw [← pHash_page, same] at hash
        exact .inl (hash ▸ there)
      · exact .inr later

section Walking

variable [DecidableEq Proc]

variable {t : Proc}

theorem Sound.enter (sound : s.Sound F (· ≠ t)) {task : Task n} {readers : Finset Proc} (out : Option (Return n))
    (kept : ∀ t', t' ≠ t → t' ∈ s.readers → t' ∈ readers)
    (ok : { s with readers, task := update s.task t task, out }.TaskOK t task)
    (walk : s.WalkOK task) : { s with readers, task := update s.task t task, out }.Sound F fun _ => True := by
  have quiet : Quiet s { s with readers, task := update s.task t task, out } :=
    ⟨rfl, fun _ => ⟨rfl, rfl⟩, fun _ _ => id, fun _ _ => le_rfl, fun _ _ => le_rfl⟩
  have contents : { s with readers, task := update s.task t task, out }.Contents F :=
    sound.contents.of_same rfl fun b => ⟨_, rfl⟩
  have others : { s with readers, task := update s.task t task, out }.Sound F (· ≠ t) :=
    sound.quiet quiet contents (fun _ => id) (fun t' other => update_of_ne other _ _) kept
      fun _ _ b use lock => ⟨lock, rfl, rfl⟩
  refine ⟨others.chains, contents, fun t' _ => ?_, fun t' _ => ?_⟩
  · by_cases same : t' = t
    · rw [same]
      show TaskOK _ t (update s.task t task t)
      rw [update_self]
      exact ok
    · exact others.tasks t' same
  by_cases same : t' = t
  · rw [same]
    show WalkOK _ (update s.task t task t)
    rw [update_self]
    exact quiet.walk walk
  · exact others.walks t' same

theorem Sound.zapFrom (sound : s.Sound F (· ≠ t)) {index : Nat} {todo : List Nat} {rest : List (Fin n)}
    (suffix : ∃ i, rest <:+ s.phTable i)
    (ahead : ∀ x, (s.buffers x).fid = some index → x ∈ rest ∨ (s.buffers x).page % 4 ∈ todo) :
    (s.zapFrom t index todo rest).Sound F (fun _ => True) ∧ (s.zapFrom t index todo rest).Returned F := by
  unfold DirBuffers.zapFrom
  cases found : s.seek index todo rest with
  | some next =>
    obtain ⟨todo', b⟩ := next
    have walk : s.WalkOK (.zapping index todo' b) := fun x has =>
      (sound.chains.seek_some found suffix).2 x has (ahead x has)
    exact ⟨sound.enter _ (fun t' _ there => Finset.mem_insert_of_mem there) (Finset.mem_insert_self t _) walk, .of_none rfl⟩
  | none =>
    refine ⟨sound.enter _ (fun t' other there => Finset.mem_erase.mpr ⟨other, there⟩) trivial trivial,
      fun _ _ _ other => (nomatch other), fun index' same b has => ?_, fun _ _ other => (nomatch other)⟩
    cases same
    exact sound.chains.seek_none found has (ahead b has)

theorem Sound.flushFrom (sound : s.Sound F (· ≠ t)) {walk : Walk} {rest : List (Fin n)}
    (ahead : ∀ index todo goal, walk = .entry index todo goal → (∃ i, rest <:+ s.phTable i) ∧
      (∀ page, goal page ≤ s.releases index page) ∧ ∀ x, s.Wanted index goal x → x ∈ rest ∨ (s.buffers x).page % 4 ∈ todo) :
    (s.flushFrom t walk rest).Sound F (fun _ => True) ∧ (s.flushFrom t walk rest).Returned F := by
  unfold DirBuffers.flushFrom
  cases found : s.nextToFlush walk rest with
  | some next =>
    obtain ⟨walk', b⟩ := next
    refine ⟨sound.enter _ (fun t' _ there => Finset.mem_insert_of_mem there) (Finset.mem_insert_self t _) ?_, .of_none rfl⟩
    cases walk with
    | all =>
      obtain ⟨b', -, same⟩ := Option.map_eq_some_iff.mp found
      cases same
      trivial
    | entry index todo goal =>
      obtain ⟨⟨todo', b'⟩, found, same⟩ := Option.map_eq_some_iff.mp found
      cases same
      obtain ⟨suffix, begun, ahead⟩ := ahead index todo goal rfl
      obtain ⟨has, after⟩ := sound.chains.seek_some found suffix
      refine ⟨(sound.chains.hashed b index has).1, begun, fun x wanted => ?_⟩
      exact (after x wanted.1 (ahead x wanted)).imp_left fun same => ⟨Phase.noConfusion, same⟩
  | none =>
    refine ⟨sound.enter _ (fun t' other there => Finset.mem_erase.mpr ⟨other, there⟩) trivial trivial,
      fun index page b same => ?_, fun index same => ?_, fun index goal same page => ?_⟩
    · cases walk <;> cases same
    · cases walk <;> cases same
    cases walk with
    | all => cases same
    | entry _ todo _ =>
      cases same
      obtain ⟨-, begun, ahead⟩ := ahead index todo goal rfl
      by_contra late
      have late := Nat.lt_of_not_le late
      obtain ⟨x, ⟨rfl, has⟩, -⟩ := (sound.contents.pages index page).dirty (late.trans_le (begun page))
      exact sound.chains.seek_none (Option.map_eq_none_iff.mp found) has (ahead x ⟨has, late⟩)

end Walking

/-- The call that walks is to flush `x`, and comes to it only behind `b`. -/
def Needs (s : DirBuffers Proc D n) (index : Nat) (todo : List Nat) (goal : Nat → Nat) (b x : Fin n) : Prop :=
  s.Wanted index goal x ∧ x ∈ s.rest b ∧ (s.buffers x).page % 4 ∉ todo

instance (index : Nat) (todo : List Nat) (goal : Nat → Nat) (b x : Fin n) : Decidable (s.Needs index todo goal b x) :=
  inferInstanceAs (Decidable (_ ∧ _ ∧ _))

theorem Chains.bufFront (chains : s.Chains) {m : Fin n} (there : m ∈ s.phTable i) : (s.bufFront i m).Chains := by
  have same (j : Nat) (b : Fin n) : b ∈ (s.bufFront i m).phTable j ↔ b ∈ s.phTable j := by
    by_cases here : j = i
    · rw [here]
      show b ∈ update s.phTable i _ i ↔ _
      rw [update_self, mem_cons, (chains.nodup i).mem_erase_iff]
      constructor
      · rintro (rfl | ⟨-, there⟩)
        · exact there
        · exact there
      · exact fun there => or_iff_not_imp_left.mpr fun other => ⟨other, there⟩
    · show b ∈ update s.phTable i _ j ↔ _
      rw [update_of_ne here]
  constructor
  · intro j
    by_cases here : j = i
    · rw [here]
      show (update s.phTable i _ i).Nodup
      rw [update_self]
      exact List.nodup_cons.mpr ⟨(chains.nodup i).not_mem_erase, (chains.nodup i).erase m⟩
    · show (update s.phTable i _ j).Nodup
      rw [update_of_ne here]
      exact chains.nodup j
  · exact fun j b there => chains.listed j b ((same j b).mp there)
  · exact fun b index has => ⟨(same _ b).mpr (chains.hashed b index has).1, (chains.hashed b index has).2⟩

theorem WalkOK.bufFront (chains : s.Chains) {m : Fin n}
    {phase : Phase} (ok : s.WalkOK (.flushing (.entry index todo goal) phase b))
    (clear : ¬ s.Needs index todo goal b m) : (s.bufFront i m).WalkOK (.flushing (.entry index todo goal) phase b) := by
  obtain ⟨listed, begun, ahead⟩ := ok
  refine ⟨?_, begun, fun x wanted => ?_⟩
  · obtain h | h := eq_or_ne (s.buffers b).hashIndex i
    · show b ∈ update s.phTable i _ (s.buffers b).hashIndex
      rw [h] at listed ⊢
      rw [update_self, mem_cons, (chains.nodup i).mem_erase_iff]
      exact or_iff_not_imp_left.mpr fun other => ⟨other, listed⟩
    · show b ∈ update s.phTable i _ (s.buffers b).hashIndex
      rw [update_of_ne h]
      exact listed
  rcases ahead x wanted with here | there' | later
  · exact .inl here
  · by_cases later : (s.buffers x).page % 4 ∈ todo
    · exact .inr (.inr later)
    have apart : x ≠ m := fun same => clear (same ▸ ⟨wanted, there', later⟩)
    refine .inr (.inl ?_)
    unfold rest at there' ⊢
    show x ∈ behind b (update s.phTable i _ (s.buffers b).hashIndex)
    obtain h | h := eq_or_ne (s.buffers b).hashIndex i
    · rw [h] at there' ⊢
      rw [update_self]
      by_cases same : m = b
      · rw [same, behind_cons_self]
        exact mem_erase_of_mem_behind (chains.nodup i) there'
      · rw [behind_cons_other same]
        exact mem_behind_erase apart same there'
    · rw [update_of_ne h]
      exact there'
  · exact .inr (.inr later)

structure Moved (s s' : DirBuffers Proc D n) (v : Fin n) (index page : Nat) : Prop where
  table : s'.phTable = fixupBucket s.phTable v (s.buffers v).hashIndex (pHash index page)
  others : ∀ m ≠ v, s'.buffers m = s.buffers m
  hashIndex : (s'.buffers v).hashIndex = pHash index page
  page : (s'.buffers v).page = page
  fid : ∀ index', (s'.buffers v).fid = some index' → index' = index
  saved : s'.saved = s.saved
  releases : s'.releases = s.releases

theorem Chains.mem_fixupBucket (chains : s.Chains) {j : Nat} :
    b ∈ fixupBucket s.phTable v (s.buffers v).hashIndex i j ↔ b = v ∧ j = i ∨ b ≠ v ∧ b ∈ s.phTable j := by
  have removed (j : Nat) : b ∈ update s.phTable (s.buffers v).hashIndex ((s.phTable (s.buffers v).hashIndex).erase v) j ↔
      b ≠ v ∧ b ∈ s.phTable j := by
    by_cases here : j = (s.buffers v).hashIndex
    · rw [here, update_self, (chains.nodup _).mem_erase_iff]
    rw [update_of_ne here]
    refine (and_iff_right_of_imp ?_).symm
    rintro there rfl
    exact here (chains.listed j b there).symm
  unfold fixupBucket
  by_cases here : j = i
  · rw [here, update_self, mem_cons, removed]
    simp
  · rw [update_of_ne here, removed]
    simp [here]

theorem Moved.chains {page : Nat} (moved : Moved s s' v index page) (chains : s.Chains) : s'.Chains := by
  constructor
  · intro j
    rw [moved.table]
    have removed (j : Nat) :
        (update s.phTable (s.buffers v).hashIndex ((s.phTable (s.buffers v).hashIndex).erase v) j).Nodup := by
      by_cases here : j = (s.buffers v).hashIndex
      · rw [here, update_self]
        exact (chains.nodup _).erase v
      · rw [update_of_ne here]
        exact chains.nodup j
    unfold fixupBucket
    by_cases here : j = pHash index page
    · rw [here, update_self]
      refine List.nodup_cons.mpr ⟨fun there => ?_, removed _⟩
      by_cases same : pHash index page = (s.buffers v).hashIndex
      · rw [same, update_self] at there
        exact (chains.nodup _).not_mem_erase there
      · rw [update_of_ne same] at there
        exact same (chains.listed _ v there).symm
    · rw [update_of_ne here]
      exact removed j
  · intro j b there
    rw [moved.table, chains.mem_fixupBucket] at there
    rcases there with ⟨rfl, rfl⟩ | ⟨other, there⟩
    · exact moved.hashIndex
    · rw [moved.others b other]
      exact chains.listed j b there
  · intro b index' has
    rw [moved.table, chains.mem_fixupBucket]
    by_cases same : b = v
    · subst same
      obtain rfl := moved.fid index' has
      rw [moved.hashIndex, moved.page]
      exact ⟨.inl ⟨rfl, rfl⟩, rfl⟩
    · rw [moved.others b same] at has ⊢
      obtain ⟨there, hash⟩ := chains.hashed b index' has
      exact ⟨.inr ⟨same, there⟩, hash⟩

theorem Moved.walk {page : Nat} (moved : Moved s s' v index page) (chains : s.Chains)
    (contents : s.Contents F) (absent : ∀ m, ¬ s.Bufmatch index page m) {index' : Nat}
    {phase : Phase} (ok : s.WalkOK (.flushing (.entry index' todo goal) phase b)) (idle : b = v → phase = .resume)
    (clear : b = v → (s.buffers v).hashIndex ≠ pHash index page → ∀ x, ¬ s.Needs index' todo goal b x) :
    s'.WalkOK (.flushing (.entry index' todo goal) phase b) := by
  obtain ⟨listed, begun, ahead⟩ := ok
  refine ⟨?_, by rw [moved.releases]; exact begun, fun x wanted => ?_⟩
  · rw [moved.table, chains.mem_fixupBucket]
    by_cases same : b = v
    · rw [same, moved.hashIndex]
      exact .inl ⟨rfl, rfl⟩
    · rw [moved.others b same]
      exact .inr ⟨same, listed⟩
  have apart : x ≠ v := by
    rintro rfl
    obtain ⟨has, late⟩ := wanted
    obtain rfl := moved.fid index' has
    rw [moved.page, moved.saved] at late
    obtain ⟨m, matched, -⟩ := (contents.pages index' page).dirty (late.trans_le (begun page))
    exact absent m matched
  have wanted' : s.Wanted index' goal x := by
    unfold Wanted at wanted ⊢
    rw [moved.others x apart, moved.saved] at wanted
    exact wanted
  rcases ahead x wanted' with ⟨busy, here⟩ | there | later
  · exact .inl ⟨busy, here⟩
  · by_cases later : (s.buffers x).page % 4 ∈ todo
    · refine .inr (.inr ?_)
      rw [moved.others x apart]
      exact later
    refine .inr (.inl ?_)
    unfold rest at there ⊢
    rw [moved.table]
    unfold fixupBucket
    by_cases same : b = v
    · have stays : (s.buffers v).hashIndex = pHash index page := by
        by_contra goes
        exact clear same goes x ⟨wanted', there, later⟩
      rw [same] at there ⊢
      rw [moved.hashIndex, update_self, behind_cons_self, ← stays, update_self]
      exact mem_erase_of_mem_behind (chains.nodup _) there
    rw [moved.others b same]
    have removed : x ∈ behind b (update s.phTable (s.buffers v).hashIndex ((s.phTable (s.buffers v).hashIndex).erase v)
        (s.buffers b).hashIndex) := by
      by_cases here : (s.buffers b).hashIndex = (s.buffers v).hashIndex
      · rw [here] at there ⊢
        rw [update_self]
        exact mem_behind_erase apart (Ne.symm same) there
      · rw [update_of_ne here]
        exact there
    by_cases here : (s.buffers b).hashIndex = pHash index page
    · rw [here] at removed ⊢
      rw [update_self, behind_cons_other (Ne.symm same)]
      exact removed
    · rw [update_of_ne here]
      exact removed
  · refine .inr (.inr ?_)
    rw [moved.others x apart]
    exact later

end DirBuffers

end OpenAFS.Afs
