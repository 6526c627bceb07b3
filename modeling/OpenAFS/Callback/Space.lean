import OpenAFS.Callback.Consistency

namespace OpenAFS.Callback

open Lib List
open Function (update)

def Package.deleteAllOf : List Nat → Package → Option Package
  | [], s => some s
  | host :: rest, s => do
    let s ← s.deleteAllCallBacks host true
    deleteAllOf rest s

def Package.NoCallBacks (s : Package) : Prop := ∀ host, (s.host host).cblist = 0

def Package.AllFree (s : Package) : Prop :=
  ∃ free, Linked id s.FE.vnode s.FEfree free ∧ ∀ fe, s.Block fe → fe ∈ free

/-- The allocation loop ends at once when no callback is left that could be deleted. -/
def Package.Allocates (s : Package) (get : Package → Nat × Package) : Prop :=
  s.NoCallBacks → 0 < s.nblks → ∀ host holds tries n,
    ∃ block s', block ≠ 0 ∧ allocate get host holds tries (n + 1) s = .done block s'

structure Reclaimable (s : Package) : Prop where
  occupied : ∀ fe, s.Hashed fe → ∃ cb, s.OnList fe cb
  emptied : ∀ hosts, (∀ host, (s.host host).cblist ≠ 0 → host ∈ hosts) →
    ∃ s', s.deleteAllOf hosts = some s' ∧ s'.NoCallBacks ∧ s'.AllFree
  allocates : s.Allocates Package.getFE

section

variable {held : List Nat} {s : Package} {l : Lists}

section

variable (intact : Intact held s l)
include intact

theorem Intact.deleteAllOf (hosts : List Nat) :
    ∃ s' l', s.deleteAllOf hosts = some s' ∧ Intact held s' l' ∧ l'.apart = l.apart ∧
      (∀ cb, cb ∈ l'.chained ↔ cb ∈ l.chained ∧ s.CB.hhead cb ∉ hosts) ∧ (Full s l → Full s' l') := by
  induction hosts generalizing s l with
  | nil => exact ⟨s, l, rfl, intact, rfl, by simp, id⟩
  | cons host rest ih =>
    obtain ⟨s₁, l₁, first, intact₁, apart₁, chained₁, hhead₁, full₁⟩ := intact.deleteAllCallBacks host true
    obtain ⟨s', l', done, intact', apart', chained', full'⟩ := ih intact₁
    refine ⟨s', l', ?_, intact', apart'.trans apart₁, ?_, fun full => full' (full₁ (.inl rfl) full)⟩
    · simp only [Package.deleteAllOf, first, Option.bind_eq_bind, Option.bind_some]
      exact done
    · intro cb
      rw [chained', chained₁, hhead₁, mem_cons, not_or, and_assoc]

theorem Intact.cblist_ne_zero {cb : Nat} (inside : cb ∈ l.chained) :
    (s.host (s.CB.hhead cb)).cblist ≠ 0 := by
  have ring := intact.loose.shape.hosts (s.CB.hhead cb)
  have member : cb ∈ l.hosted.filter fun c => s.CB.hhead c = s.CB.hhead cb := by
    simpa using (intact.hosted cb).mpr inside
  cases split : l.hosted.filter fun c => s.CB.hhead c = s.CB.hhead cb with
  | nil =>
    rw [split] at member
    cases member
  | cons b rest =>
    rw [split] at ring
    have start : (s.host (s.CB.hhead cb)).cblist = b := ring.head_eq
    rw [start]
    exact ring.ne_zero mem_cons_self

theorem Intact.noCallBacks_iff : s.NoCallBacks ↔ l.chained = [] := by
  constructor
  · intro none
    rw [eq_nil_iff_forall_not_mem]
    intro cb inside
    exact intact.cblist_ne_zero inside (none _)
  intro empty host
  have nobody : l.hosted.filter (fun c => s.CB.hhead c = host) = [] := by
    rw [filter_eq_nil_iff]
    intro cb inside
    rw [intact.hosted, empty] at inside
    cases inside
  have ring := intact.loose.shape.hosts host
  rw [nobody] at ring
  exact ring

theorem Intact.entries_nil (full : Full s l) (none : s.NoCallBacks) : l.entries = [] := by
  rw [eq_nil_iff_forall_not_mem]
  intro fe inside
  obtain ⟨cb, chained, -⟩ := full fe inside
  rw [intact.noCallBacks_iff.mp none] at chained
  cases chained

theorem Intact.allFree (whole : l.apart = []) (full : Full s l) (none : s.NoCallBacks) :
    s.AllFree := by
  refine ⟨l.freeFE, intact.loose.shape.freeFE, ?_⟩
  intro fe block
  have files := intact.loose.files
  rw [whole, intact.entries_nil full none, append_nil, append_nil] at files
  rw [files.mem_iff, mem_range'_1]
  obtain ⟨low, high⟩ := block
  omega

end

theorem AllFree.ne_zero (free : s.AllFree) (some' : 0 < s.nblks) : s.FEfree ≠ 0 := by
  obtain ⟨list, linked, all⟩ := free
  intro zero
  rw [zero] at linked
  have first := all 1 ⟨le_rfl, some'⟩
  rw [linked.eq_nil] at first
  cases first

theorem allocate_done {get : Package → Nat × Package} {block : Nat} {s' : Package} (got : get s = (block, s'))
    (some' : block ≠ 0) (host : Nat) (holds : List Nat) (tries n : Nat) :
    allocate get host holds tries (n + 1) s = .done block s' := by
  have first : (Act.run fun s => some (get s) : Do Nat) s = .done block s' := Act.run_apply (by rw [got])
  rw [allocate, Act.bind_apply, first]
  change ((if block = 0 then _ else _ : Do Nat) s') = _
  rw [if_neg some']
  rfl

theorem Intact.reclaimable (intact : Intact held s l) (whole : l.apart = []) (full : Full s l) : Reclaimable s := by
  refine { occupied := ?_, emptied := ?_, allocates := ?_ }
  · intro fe hashed
    have inside := intact.hashed_iff.mp hashed
    obtain ⟨cb, chained, home⟩ := full fe inside
    exact ⟨cb, (intact.onList_iff inside).mpr ⟨chained, home⟩⟩
  · intro hosts all
    obtain ⟨s', l', done, intact', apart, chained, full'⟩ := intact.deleteAllOf hosts
    have none : s'.NoCallBacks := by
      rw [intact'.noCallBacks_iff, eq_nil_iff_forall_not_mem]
      intro cb inside
      obtain ⟨old, other⟩ := (chained cb).mp inside
      exact other (all _ (intact.cblist_ne_zero old))
    exact ⟨s', done, none, intact'.allFree (apart.trans whole) (full' full) none⟩
  · intro none some' host holds tries n
    have free := AllFree.ne_zero (intact.allFree whole full none) some'
    have got : s.getFE = (s.FEfree, _) := if_neg free
    exact ⟨_, _, free, allocate_done got free host holds tries n⟩

theorem Intact.allocates (intact : Intact [] s l) : s.Allocates Package.getCB := by
  intro none some' host holds tries n
  have blocks := intact.loose.blocks
  rw [intact.noCallBacks_iff.mp none, append_nil, append_nil] at blocks
  have free : s.CBfree ≠ 0 := by
    intro zero
    have linked := intact.loose.shape.freeCB
    rw [zero] at linked
    have length := blocks.length_eq
    rw [linked.eq_nil, length_range'] at length
    exact some'.ne length
  have got : s.getCB = (s.CBfree, _) := if_neg free
  exact ⟨_, _, free, allocate_done got free host holds tries n⟩

end

/-- In a run in which no callbacks of a host that is down are deleted with an empty file entry left over, all space
can be reclaimed in every state. -/
theorem callback_space_reclaimable {nblks : Nat} {c : Shared Package Reply Point} (run : Reachable (allowed True) nblks c) :
    Reclaimable c.state ∧ (c.threads = [] → c.state.Allocates Package.getCB) := by
  obtain ⟨held, ⟨l, intact, none, full⟩, free⟩ := run.inv
  refine ⟨intact.reclaimable none (full trivial), ?_⟩
  intro between
  rw [free between] at intact
  exact intact.allocates

theorem callback_space_reclaimable_one : ∃ c : Shared Package Reply Point, c.threads = [] ∧ c.state.nFEs = 1 ∧
    Reclaimable c.state ∧ (c.threads = [] → c.state.Allocates Package.getCB) := by
  have run := show Reachable (allowed True) 2 ⟨_, []⟩ from
    ⟨1000, .head (.waits ⟨.addCallBack 1 ⟨7, 2, 3⟩ [] 1, rfl⟩ rfl) (.single (.firstEnds ⟨false, []⟩ trivial rfl))⟩
  exact ⟨_, rfl, rfl, callback_space_reclaimable run⟩

def sequence : List (Operation × List Reply) → Package → Option Package
  | [], s => some s
  | (op, replies) :: rest, s => do
    let s ← (op.act s).finish replies
    sequence rest s

theorem sequence_steps {ops : List (Operation × List Reply)} {s s' : Package} (done : sequence ops s = some s') :
    Relation.ReflTransGen (Turns fun _ _ => True) ⟨s, []⟩ ⟨s', []⟩ := by
  induction ops generalizing s with
  | nil =>
    have same : s = s' := Option.some.inj done
    rw [same]
  | cons first rest ih =>
    obtain ⟨op, replies⟩ := first
    obtain ⟨s₁, finished, later⟩ := Option.bind_eq_some_iff.mp done
    exact (Shared.finish_steps ⟨op, rfl⟩ finished (fun _ _ => trivial) []).trans (ih later)

def quiet : List Reply := List.replicate 8 ⟨true, []⟩

def wentDown : Option Package := do
  let s ← sequence [(.addCallBack 1 ⟨7, 2, 3⟩ [] 1, quiet), (.addCallBack 1 ⟨9, 4, 5⟩ [] 1, quiet),
    (.breakVolumeCallBacksLater 9, [])] (initCallBack 2 1000)
  sequence [(.breakLaterCallBacks 1, quiet)] (s.outside (fun h => { s.host h with venusDown := true }) [1] 1000)

/-- The file entry of volume 7 is left on its hash chain without callbacks. -/
theorem empty_file_entry_left : ¬∀ nblks c, Reachable (fun _ _ => True) nblks c → c.threads = [] → Reclaimable c.state := by
  intro always
  have ended : (wentDown.map fun s => [s.hashTable 10, s.FE.fnext 1, s.FE.firstcb 1]) = some [1, 0, 0] := by
    decide +kernel
  obtain ⟨s, done, values⟩ := Option.map_eq_some_iff.mp ended
  obtain ⟨head, next, first⟩ : s.hashTable 10 = 1 ∧ s.FE.fnext 1 = 0 ∧ s.FE.firstcb 1 = 0 := by simpa using values
  simp only [wentDown, Option.bind_eq_bind] at done
  obtain ⟨s₁, before, after⟩ := Option.bind_eq_some_iff.mp done
  have first' := sequence_steps before
  have moved : Turns (fun _ _ => True) ⟨s₁, []⟩
      ⟨s₁.outside (fun h => { s₁.host h with venusDown := true }) [1] 1000, []⟩ :=
    .outside ⟨fun h => { s₁.host h with venusDown := true }, [1], 1000, fun _ => rfl, rfl⟩
  have last := sequence_steps after
  have run : Reachable (fun _ _ => True) 2 ⟨s, []⟩ := ⟨1000, (first'.tail moved).trans last⟩
  have hashed : s.Hashed 1 := ⟨10, by decide, [1], ⟨head, by decide, next⟩, List.mem_singleton.mpr rfl⟩
  obtain ⟨cb, list, linked, inside⟩ := (always 2 ⟨s, []⟩ run rfl).occupied 1 hashed
  have empty : Linked s.cbAt .next (.first 1) [] := first
  rw [linked.unique empty] at inside
  cases inside

end OpenAFS.Callback
