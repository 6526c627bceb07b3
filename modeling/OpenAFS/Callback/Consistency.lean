import OpenAFS.Callback.Runs

namespace OpenAFS.Callback

open Lib List
open Function (update)

/-- The free blocks, the hash chains, and the lists of file entries, hosts and timeout queues. -/
structure View where
  freeCB : List Nat
  freeFE : List Nat
  bucket : Nat → List Nat
  chain : Nat → List Nat
  ofHost : Nat → List Nat
  queue : Nat → List Nat

def Package.Block (s : Package) (n : Nat) : Prop := 1 ≤ n ∧ n ≤ s.nblks

namespace View

def InUse (v : View) (fe : Nat) : Prop := ∃ hash, fe ∈ v.bucket hash

/-- The callback is on no list of a file entry, of a host or of a timeout queue. -/
def OnNone (v : View) (cb : Nat) : Prop :=
  (∀ fe, cb ∉ v.chain fe) ∧ (∀ host, cb ∉ v.ofHost host) ∧ ∀ thead, cb ∉ v.queue thead

/-- The callback is on the lists of the file entry, the host and the timeout queue that it names, and on no others. -/
def OnOwn (v : View) (s : Package) (cb : Nat) : Prop :=
  (∀ fe, cb ∈ v.chain fe ↔ fe = s.CB.fhead cb) ∧ (∀ host, cb ∈ v.ofHost host ↔ host = s.CB.hhead cb) ∧
    ∀ thead, cb ∈ v.queue thead ↔ thead = s.CB.thead cb

end View

/-- The arrays hold the lists, and every block is where it belongs. Callbacks that are held were allocated by an
operation that has not linked them yet. -/
structure Consistent (held : List Nat) (s : Package) (v : View) : Prop where
  freeCB : Linked id s.CB.cnext s.CBfree v.freeCB
  freeFE : Linked id s.FE.vnode s.FEfree v.freeFE
  table : ∀ hash < fehashSize, Linked s.feAt .next (.head hash) (v.bucket hash)
  chains : ∀ fe, v.InUse fe → Linked s.cbAt .next (.first fe) (v.chain fe)
  hosts : ∀ host, Ring s.CB.hnext s.CB.hprev (s.host host).cblist (v.ofHost host)
  queues : ∀ thead, Ring s.CB.tnext s.CB.tprev (s.timeout thead) (v.queue thead)
  callbacks : ∀ cb, s.Block cb → cb ∈ v.freeCB ∧ cb ∉ held ∧ v.OnNone cb ∨ cb ∉ v.freeCB ∧ cb ∈ held ∧ v.OnNone cb ∨
    cb ∉ v.freeCB ∧ cb ∉ held ∧ v.OnOwn s cb ∧ v.InUse (s.CB.fhead cb) ∧ 1 ≤ s.CB.thead cb ∧ s.CB.thead cb ≤ 128
  files : ∀ fe, s.Block fe → fe ∈ v.freeFE ∧ ¬v.InUse fe ∨ fe ∉ v.freeFE ∧ ∀ hash, fe ∈ v.bucket hash ↔ hash = s.hash fe
  others : ∀ n, ¬s.Block n → n ∉ v.freeCB ∧ n ∉ v.freeFE ∧ n ∉ held ∧ v.OnNone n ∧ ¬v.InUse n
  once : v.freeCB.Nodup ∧ v.freeFE.Nodup ∧ held.Nodup ∧ (∀ hash, (v.bucket hash).Nodup) ∧ (∀ fe, (v.chain fe).Nodup) ∧
    (∀ host, (v.ofHost host).Nodup) ∧ ∀ thead, (v.queue thead).Nodup
  ncbs : ∀ fe, v.InUse fe → s.FE.ncbs fe = (v.chain fe).length
  single : ∀ fe, ∀ cb ∈ v.chain fe, ∀ cb' ∈ v.chain fe, s.CB.hhead cb = s.CB.hhead cb' → cb = cb'
  distinct : ∀ fe fe', v.InUse fe → v.InUse fe' → s.FE.later fe = false → s.FE.later fe' = false → s.fid fe = s.fid fe' → fe = fe'
  nCBs : s.nCBs = ((List.range' 1 s.nblks).filter fun cb => cb ∉ v.freeCB).length
  nFEs : s.nFEs = ((List.range' 1 s.nblks).filter fun fe => fe ∉ v.freeFE).length

def Lists.view (l : Lists) (s : Package) : View where
  freeCB := l.freeCB
  freeFE := l.freeFE
  bucket hash := l.entries.filter fun fe => s.hash fe = hash
  chain fe := l.chained.filter fun cb => s.CB.fhead cb = fe
  ofHost host := l.hosted.filter fun cb => s.CB.hhead cb = host
  queue thead := l.timed.filter fun cb => s.CB.thead cb = thead

section

variable {s : Package} {l : Lists}

theorem view_inUse (fe : Nat) : (l.view s).InUse fe ↔ fe ∈ l.entries := by
  constructor
  · rintro ⟨hash, inside⟩
    exact (List.mem_filter.mp inside).1
  · intro inside
    exact ⟨s.hash fe, by simpa [Lists.view] using inside⟩

variable {held : List Nat}

theorem Intact.onNone (intact : Intact held s l) {cb : Nat} (outside : cb ∉ l.chained) : (l.view s).OnNone cb := by
  have nowhere := outside
  rw [← intact.hosted] at nowhere
  have never := outside
  rw [← intact.timed] at never
  refine ⟨?_, ?_, ?_⟩
  · exact fun _ inside => outside (List.mem_filter.mp inside).1
  · exact fun _ inside => nowhere (List.mem_filter.mp inside).1
  · exact fun _ inside => never (List.mem_filter.mp inside).1

theorem Intact.onOwn (intact : Intact held s l) {cb : Nat} (inside : cb ∈ l.chained) : (l.view s).OnOwn s cb := by
  have hosted := (intact.hosted cb).mpr inside
  have timed := (intact.timed cb).mpr inside
  simp only [View.OnOwn, Lists.view, mem_filter, inside, hosted, timed, true_and, decide_eq_true_eq]
  exact ⟨fun _ => eq_comm, fun _ => eq_comm, fun _ => eq_comm⟩

theorem length_inUse {free used : List Nat} {n count : Nat} (all : (free ++ used).Perm (List.range' 1 n))
    (total : count + free.length = n) : count = ((List.range' 1 n).filter fun b => b ∉ free).length := by
  have once : (free ++ used).Nodup := all.nodup_iff.mpr nodup_range'
  have first : free.filter (fun b => b ∉ free) = [] := by
    simp
  have second : used.filter (fun b => b ∉ free) = used := by
    rw [filter_eq_self]
    intro b inside
    rw [decide_eq_true_eq]
    exact fun early => (List.nodup_append.mp once).2.2 b early b inside rfl
  have same := (all.filter fun b => b ∉ free).length_eq
  rw [filter_append, first, second, nil_append] at same
  have length := all.length_eq
  rw [length_append, length_range'] at length
  omega

theorem Intact.consistent (intact : Intact held s l) (none : l.apart = []) : Consistent held s (l.view s) := by
  have shape := intact.loose.shape
  have blocks := intact.loose.blocks
  have files := intact.loose.files
  rw [none, nil_append] at files
  have onceCB := intact.loose.once
  have onceFE : (l.freeFE ++ l.entries).Nodup := files.nodup_iff.mpr nodup_range'
  have apartCB := (List.nodup_append.mp onceCB).2.2
  have apartHeld := (List.nodup_append.mp onceCB.of_append_right).2.2
  have apartFE := (List.nodup_append.mp onceFE).2.2
  have known : ∀ n, s.Block n ↔ n ∈ List.range' 1 s.nblks := by
    intro n
    rw [Package.Block, mem_range'_1]
    omega
  refine {
    freeCB := shape.freeCB
    freeFE := shape.freeFE
    table := fun hash fine => shape.bucket fine
    chains := fun fe used => shape.chain ((view_inUse fe).mp used)
    hosts := shape.hosts
    queues := shape.queues
    callbacks := ?_
    files := ?_
    others := ?_
    once := ?_
    ncbs := fun fe used => intact.loose.ncbs fe ((view_inUse fe).mp used)
    single := ?_
    distinct := ?_
    nCBs := length_inUse blocks intact.loose.nCBs
    nFEs := length_inUse files intact.loose.nFEs }
  · intro cb block
    rw [known, ← blocks.mem_iff, mem_append, mem_append] at block
    rcases block with free | kept | chained
    · refine .inl ⟨free, ?_, intact.onNone ?_⟩
      · exact fun kept => apartCB cb free cb (mem_append_left _ kept) rfl
      · exact fun chained => apartCB cb free cb (mem_append_right _ chained) rfl
    · refine .inr (.inl ⟨?_, kept, intact.onNone fun chained => apartHeld cb kept cb chained rfl⟩)
      exact fun free => apartCB cb free cb (mem_append_left _ kept) rfl
    · refine .inr (.inr ⟨intact.loose.notMem_free chained, ?_, intact.onOwn chained, ?_, ?_⟩)
      · exact fun kept => apartHeld cb kept cb chained rfl
      · exact (view_inUse _).mpr (intact.home cb chained)
      · exact intact.loose.queues cb ((intact.timed cb).mpr chained)
  · intro fe block
    rw [known, ← files.mem_iff, mem_append] at block
    rcases block with free | used
    · refine .inl ⟨free, ?_⟩
      rw [view_inUse]
      exact fun used => apartFE fe free fe used rfl
    refine .inr ⟨fun free => apartFE fe free fe used rfl, ?_⟩
    intro hash
    simp only [Lists.view, mem_filter, used, true_and, decide_eq_true_eq]
    exact eq_comm
  · intro n other
    rw [known] at other
    have notCB := other
    rw [← blocks.mem_iff, mem_append, mem_append, not_or, not_or] at notCB
    have notFE := other
    rw [← files.mem_iff, mem_append, not_or, ← view_inUse] at notFE
    exact ⟨notCB.1, notFE.1, notCB.2.1, intact.onNone notCB.2.2, notFE.2⟩
  · refine ⟨onceCB.of_append_left, onceFE.of_append_left, onceCB.of_append_right.of_append_left, ?_, ?_, ?_, ?_⟩
    · exact fun hash => intact.loose.entries_nodup.filter _
    · exact fun fe => intact.loose.chained_nodup.filter _
    · exact fun host => (shape.hosts host).nodup
    · exact fun thead => (shape.queues thead).nodup
  · intro fe cb inside cb' inside' same
    have here := List.mem_filter.mp inside
    have there := List.mem_filter.mp inside'
    simp only [decide_eq_true_eq] at here there
    exact intact.loose.single cb here.1 cb' there.1 (here.2.trans there.2.symm) same
  · intro fe fe' used used'
    exact intact.loose.distinct fe ((view_inUse fe).mp used) fe' ((view_inUse fe').mp used')

end

theorem allowed_of_not (p : Point) (s : Package) : allowed False p s := by
  cases p with
  | outside => trivial
  | down host deletefe =>
    cases deletefe with
    | true => trivial
    | false => exact False.elim

/-- In every state of every run the arrays hold lists on which every block is where it belongs; between operations no
callback is held. -/
theorem callback_lists_consistent {nblks : Nat} {c : Shared Package Reply Point} (run : Reachable (fun _ _ => True) nblks c) :
    ∃ held v, Consistent held c.state v ∧ (c.threads = [] → held = []) := by
  have every : (fun _ _ => True) = allowed False := by
    funext p s
    exact (eq_true (allowed_of_not p s)).symm
  rw [every] at run
  obtain ⟨held, ⟨l, intact, none, -⟩, free⟩ := run.inv
  exact ⟨held, l.view c.state, intact.consistent none, free⟩

theorem callback_lists_consistent_one : ∃ c : Shared Package Reply Point, c.threads = [] ∧ c.state.nCBs = 1 ∧
    ∃ held v, Consistent held c.state v ∧ (c.threads = [] → held = []) := by
  have run := show Reachable (fun _ _ => True) 2 ⟨_, []⟩ from
    ⟨1000, .head (.waits ⟨.addCallBack 1 ⟨7, 2, 3⟩ [] 1, rfl⟩ rfl) (.single (.firstEnds ⟨false, []⟩ trivial rfl))⟩
  exact ⟨_, rfl, rfl, callback_lists_consistent run⟩

end OpenAFS.Callback
