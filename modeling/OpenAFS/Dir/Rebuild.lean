import OpenAFS.Dir.CheckSound

namespace OpenAFS.Dir

open Lib List Option

def maxEname : Nat := 256

/-- What `DirSalvage` is given besides the two files, and what lies behind their buffers. The fresh buffers of the
    target hold anything: the one of `MakeDir`, and those of the `Create` for an entry of a chain. -/
structure Salvaging where
  beyondFrom : Beyond
  beyondTo : Beyond
  junkMade : Page
  junk : Nat → Nat → Page
  me : Fid
  parent : Fid

section Calls

variable (s : Salvaging) (fromFile : DirFile)

def tname (entry : Nat) : List UInt8 := (cString s.beyondFrom fromFile (nameAt entry)).take (maxEname - 1)

def createTo (i entry : Nat) (toFile : DirFile) : Option (DirFile × Code) :=
  create s.beyondTo (s.junk i entry) (tname s fromFile entry) (fidAt fromFile entry) toFile

/-- Hash chain `i`. The loop has no count of its own: `none` is a walk that is still going on after so many turns. -/
def salvageChain (usedPages i : Nat) : Nat → Nat → DirFile → Option DirFile
  | 0, _, _ => none
  | fuel + 1, entry, toFile =>
    if entry = 0 then some toFile
    else if usedPages * epp ≤ entry then some toFile
    else if !hasPage fromFile (entry / epp) then some toFile
    else
      let next := shortAt fromFile (nextAt entry)
      if tname s fromFile entry ≠ dot ∧ tname s fromFile entry ≠ dotdot then
        match createTo s fromFile i entry toFile with
        | none => none
        | some (toFile, .ok) => salvageChain usedPages i fuel next toFile
        | some (toFile, _) => some toFile
      else salvageChain usedPages i fuel next toFile

def dirSalvage (fuel : Nat) (toFile : DirFile) : Option (DirFile × Code) :=
  (makeDir s.beyondTo s.junkMade s.me s.parent toFile).bind fun toFile =>
    if !hasPage fromFile 0 then some (toFile, .ok)
    else
      let usedPages := computeUsedPages fromFile
      ((List.range nHashEnt).foldlM
        (fun toFile i => salvageChain s fromFile usedPages i fuel (shortAt fromFile (hashTableAt i)) toFile)
        toFile).map fun toFile => (toFile, .ok)

end Calls

def Ends (s : Salvaging) (d old : DirFile) : Prop := ∃ fuel result, dirSalvage s d fuel old = some result

section Walk

variable (s : Salvaging) (d : DirFile) (usedPages i : Nat)

structure Passes (entry : Nat) : Prop where
  some : entry ≠ 0
  below : entry < usedPages * epp
  there : hasPage d (entry / epp) = true

def IsDots (entry : Nat) : Prop := tname s d entry = dot ∨ tname s d entry = dotdot

def next (entry : Nat) : Nat := shortAt d (nextAt entry)

inductive Turn (entry : Nat) (target : DirFile) : DirFile → Prop
  | dots (passes : Passes d usedPages entry) (skipped : IsDots s d entry) : Turn entry target target
  | created {target' : DirFile} (passes : Passes d usedPages entry) (named : ¬ IsDots s d entry)
      (ok : createTo s d i entry target = some (target', .ok)) : Turn entry target target'

inductive Over : Nat → DirFile → Nat → DirFile → Prop
  | here (entry : Nat) (target : DirFile) : Over entry target entry target
  | turn {entry last : Nat} {target target' target'' : DirFile} (turn : Turn s d usedPages i entry target target')
      (later : Over (next d entry) target' last target'') : Over entry target last target''

inductive Stops (entry : Nat) (target : DirFile) : DirFile → Prop
  | nothing (stop : ¬ Passes d usedPages entry) : Stops entry target target
  | refused {target' : DirFile} {code : Code} (passes : Passes d usedPages entry) (named : ¬ IsDots s d entry)
      (failed : createTo s d i entry target = some (target', code)) (bad : code ≠ .ok) : Stops entry target target'

def ChainEnds (entry : Nat) (target target' : DirFile) : Prop :=
  ∃ last middle, Over s d usedPages i entry target last middle ∧ Stops s d usedPages i last middle target'

/-- From here on the chain has entries named "." or ".." only, without end. -/
def DotsForever (entry : Nat) : Prop :=
  ∀ n, Passes d usedPages ((next d)^[n] entry) ∧ IsDots s d ((next d)^[n] entry)

/-- Over entries that `Create` takes the chain gets to dots without end. -/
def RunsIntoDots (entry : Nat) (target : DirFile) : Prop :=
  ∃ last middle, Over s d usedPages i entry target last middle ∧ DotsForever s d usedPages last

end Walk

inductive ChainsEnd (s : Salvaging) (d old : DirFile) : Nat → DirFile → Prop
  | made {target : DirFile} (made : makeDir s.beyondTo s.junkMade s.me s.parent old = some target) : ChainsEnd s d old 0 target
  | chain {i : Nat} {target target' : DirFile} (earlier : ChainsEnd s d old i target)
      (ends : ChainEnds s d (computeUsedPages d) i (shortAt d (hashTableAt i)) target target') :
      ChainsEnd s d old (i + 1) target'

variable {s : Salvaging} {d old : DirFile} {usedPages i : Nat} {target target' : DirFile} {entry : Nat}

theorem Over.trans {middle last : Nat} {target'' : DirFile}
    (first : Over s d usedPages i entry target middle target') (second : Over s d usedPages i middle target' last target'') :
    Over s d usedPages i entry target last target'' := by
  induction first with
  | here => exact second
  | turn turn _ ih => exact .turn turn (ih second)

theorem over_dots {n : Nat} (dots : ∀ k < n, Passes d usedPages ((next d)^[k] entry) ∧ IsDots s d ((next d)^[k] entry))
    (target : DirFile) : Over s d usedPages i entry target ((next d)^[n] entry) target := by
  induction n generalizing entry with
  | zero => exact .here entry target
  | succ n ih =>
    obtain ⟨passes, skipped⟩ := dots 0 (Nat.zero_lt_succ n)
    exact .turn (.dots passes skipped) (ih fun k small => dots (k + 1) (Nat.succ_lt_succ small))

variable {fuel : Nat}

theorem salvageChain_stops (stops : Stops s d usedPages i entry target target') :
    salvageChain s d usedPages i (fuel + 1) entry target = some target' := by
  cases stops with
  | nothing stop =>
    rw [salvageChain]
    split
    · rfl
    rename_i some
    split
    · rfl
    rename_i below
    split
    · rfl
    · rename_i there
      exact absurd ⟨some, by omega, by simpa using there⟩ stop
  | refused passes named failed bad =>
    rw [IsDots, not_or] at named
    rw [salvageChain, if_neg passes.some, if_neg (Nat.not_le.mpr passes.below), passes.there, Bool.not_true,
      if_neg Bool.false_ne_true]
    rw [if_pos named, failed]
    split
    · rename_i none
      cases none
    · rename_i ok
      cases ok
      exact absurd rfl bad
    · rename_i same
      cases same
      rfl

theorem salvageChain_turn (turn : Turn s d usedPages i entry target target') :
    salvageChain s d usedPages i (fuel + 1) entry target = salvageChain s d usedPages i fuel (next d entry) target' := by
  cases turn with
  | dots passes skipped =>
    have named : ¬ (tname s d entry ≠ dot ∧ tname s d entry ≠ dotdot) := by
      rw [← not_or]
      exact not_not_intro skipped
    rw [salvageChain, if_neg passes.some, if_neg (Nat.not_le.mpr passes.below), passes.there, Bool.not_true,
      if_neg Bool.false_ne_true]
    rw [if_neg named, next]
  | created passes named ok =>
    rw [IsDots, not_or] at named
    rw [salvageChain, if_neg passes.some, if_neg (Nat.not_le.mpr passes.below), passes.there, Bool.not_true,
      if_neg Bool.false_ne_true]
    rw [if_pos named, ok, next]

theorem salvageChain_over {last : Nat} (reach : Over s d usedPages i entry target last target') :
    ∃ n, ∀ fuel, salvageChain s d usedPages i (fuel + n) entry target = salvageChain s d usedPages i fuel last target' := by
  induction reach with
  | here => exact ⟨0, fun _ => rfl⟩
  | turn turn _ ih =>
    obtain ⟨n, same⟩ := ih
    exact ⟨n + 1, fun fuel => (salvageChain_turn turn).trans (same fuel)⟩

theorem ChainEnds.salvageChain (ends : ChainEnds s d usedPages i entry target target') :
    ∃ n, ∀ fuel ≥ n, salvageChain s d usedPages i fuel entry target = some target' := by
  obtain ⟨last, middle, reach, stops⟩ := ends
  obtain ⟨n, same⟩ := salvageChain_over reach
  refine ⟨n + 1, fun fuel enough => ?_⟩
  obtain ⟨more, rfl⟩ := Nat.exists_eq_add_of_le enough
  rw [show n + 1 + more = more + 1 + n by omega, same, salvageChain_stops stops]

theorem salvageChain_mono {fuel more entry : Nat} {target target' : DirFile}
    (ended : salvageChain s d usedPages i fuel entry target = some target') :
    salvageChain s d usedPages i (fuel + more) entry target = some target' := by
  induction fuel generalizing entry target with
  | zero => cases ended
  | succ fuel ih =>
    rw [Nat.add_right_comm]
    rw [salvageChain] at ended ⊢
    split
    · rwa [if_pos ‹_›] at ended
    rw [if_neg ‹_›] at ended
    split
    · rwa [if_pos ‹_›] at ended
    rw [if_neg ‹_›] at ended
    split
    · rwa [if_pos ‹_›] at ended
    rw [if_neg ‹_›] at ended
    split
    · rw [if_pos ‹_›] at ended
      cases made : createTo s d i entry target with
      | none =>
        rw [made] at ended
        cases ended
      | some result =>
        obtain ⟨target'', code⟩ := result
        rw [made] at ended
        cases code with
        | ok => exact ih ended
        | _ => exact ended
    · rw [if_neg ‹_›] at ended
      exact ih ended

theorem ChainEnds.eq {result : DirFile} (ends : ChainEnds s d usedPages i entry target target')
    (ended : Dir.salvageChain s d usedPages i fuel entry target = some result) : result = target' := by
  obtain ⟨n, enough⟩ := ends.salvageChain
  have more := @salvageChain_mono _ _ _ _ _ n _ _ _ ended
  rw [enough _ (Nat.le_add_left n fuel)] at more
  exact (Option.some.inj more).symm

theorem DotsForever.next (forever : DotsForever s d usedPages entry) :
    DotsForever s d usedPages (next d entry) := fun n => forever (n + 1)

theorem DotsForever.salvageChain (forever : DotsForever s d usedPages entry) (target : DirFile) :
    salvageChain s d usedPages i fuel entry target = none := by
  induction fuel generalizing entry with
  | zero => rfl
  | succ fuel ih =>
    obtain ⟨passes, skipped⟩ := forever 0
    exact (salvageChain_turn (.dots passes skipped)).trans (ih forever.next)

theorem RunsIntoDots.salvageChain (runs : RunsIntoDots s d usedPages i entry target)
    (fuel : Nat) : salvageChain s d usedPages i fuel entry target = none := by
  obtain ⟨last, middle, reach, forever⟩ := runs
  obtain ⟨n, same⟩ := salvageChain_over reach
  cases ended : Dir.salvageChain s d usedPages i fuel entry target with
  | none => rfl
  | some target' =>
    have more := @salvageChain_mono _ _ _ _ _ n _ _ _ ended
    rw [same, forever.salvageChain] at more
    cases more

def Holding (es : List Entry) (target : DirFile) : Prop := ∃ pages, Valid target pages es

theorem tname_length (s : Salvaging) (d : DirFile) (entry : Nat) : (tname s d entry).length ≤ 255 := by
  rw [tname, length_take]
  exact Nat.min_le_left ..

theorem zero_not_mem_tname (s : Salvaging) (d : DirFile) (entry : Nat) : (0 : UInt8) ∉ tname s d entry := by
  intro inside
  have known := mem_takeWhile_imp (mem_of_mem_take inside)
  simp at known

inductive CreatedTo (s : Salvaging) (d : DirFile) (entry : Nat) (es : List Entry) : List Entry → Code → Prop
  | ok {e : Entry} (name : e.name.val = tname s d entry) (fid : e.fid = fidAt d entry)
      (fresh : ∀ f ∈ es, f.name ≠ e.name) : CreatedTo s d entry es (e :: es) .ok
  | refused {code : Code} (bad : code ≠ .ok) : CreatedTo s d entry es es code

theorem Holding.createTo {es : List Entry} (holding : Holding es target) (s : Salvaging) (d : DirFile)
    (i entry : Nat) : ∃ target' es' code, createTo s d i entry target = some (target', code) ∧ Holding es' target' ∧
      CreatedTo s d entry es es' code := by
  obtain ⟨pages, valid⟩ := holding
  by_cases empty : tname s d entry = []
  · refine ⟨target, es, .einval, ?_, ⟨pages, valid⟩, .refused (by decide)⟩
    rw [Dir.createTo, Dir.create, if_pos empty]
  let name : Name := ⟨tname s d entry, empty, tname_length s d entry, zero_not_mem_tname s d entry⟩
  rcases valid.findItem name s.beyondTo with ⟨absent, fresh⟩ | ⟨e, inside, same, before, after, -, found⟩
  · obtain ⟨target', pages', es', code, call, valid', made⟩ := valid.create (s.junk i entry) (fidAt d entry) absent fresh
    refine ⟨target', es', code, call, ⟨pages', valid'⟩, ?_⟩
    cases made with
    | ok blob _ => exact .ok rfl rfl fresh
    | full _ => exact .refused (by decide)
  · refine ⟨target, es, .eexist, ?_, ⟨pages, valid⟩, .refused (by decide)⟩
    change Dir.findItem s.beyondTo target (tname s d entry) = _ at found
    rw [Dir.createTo, Dir.create, if_neg empty, found]
    rfl

def missing (s : Salvaging) (d : DirFile) (usedPages : Nat) (es : List Entry) : Finset Nat :=
  (Finset.range (usedPages * epp)).filter fun entry => ∀ e ∈ es, e.name.val ≠ tname s d entry

theorem missing_cons_lt {es : List Entry} {e : Entry} (passes : Passes d usedPages entry)
    (name : e.name.val = tname s d entry) (fresh : ∀ f ∈ es, f.name ≠ e.name) :
    (missing s d usedPages (e :: es)).card < (missing s d usedPages es).card := by
  have before : entry ∈ missing s d usedPages es := by
    refine Finset.mem_filter.mpr ⟨Finset.mem_range.mpr passes.below, fun f inside same => fresh f inside ?_⟩
    exact Subtype.ext (same.trans name.symm)
  have after : entry ∉ missing s d usedPages (e :: es) := fun inside =>
    (Finset.mem_filter.mp inside).2 e mem_cons_self name
  apply Finset.card_lt_card
  refine ⟨fun b inside => ?_, fun all => after (all before)⟩
  obtain ⟨low, new⟩ := Finset.mem_filter.mp inside
  exact Finset.mem_filter.mpr ⟨low, fun f member => new f (mem_cons_of_mem _ member)⟩

theorem chainEnds_or {n entry : Nat} {es : List Entry} {target : DirFile} (few : (missing s d usedPages es).card = n)
    (holding : Holding es target) : (∃ target' es', ChainEnds s d usedPages i entry target target' ∧ Holding es' target') ∨
      RunsIntoDots s d usedPages i entry target := by
  induction n using Nat.strong_induction_on generalizing entry es target with
  | _ n ih =>
    by_cases forever : DotsForever s d usedPages entry
    · exact .inr ⟨entry, target, .here entry target, forever⟩
    -- the first entry that is not a dot
    obtain ⟨k, dots, other⟩ : ∃ k, (∀ j < k, Passes d usedPages ((next d)^[j] entry) ∧ IsDots s d ((next d)^[j] entry)) ∧
        ¬ (Passes d usedPages ((next d)^[k] entry) ∧ IsDots s d ((next d)^[k] entry)) := by
      classical
      have some : ∃ k, ¬ (Passes d usedPages ((next d)^[k] entry) ∧ IsDots s d ((next d)^[k] entry)) :=
        not_forall.mp forever
      exact ⟨Nat.find some, fun j early => not_not.mp (Nat.find_min some early), Nat.find_spec some⟩
    have reach := over_dots (s := s) (i := i) dots target
    by_cases passes : Passes d usedPages ((next d)^[k] entry)
    · have named : ¬ IsDots s d ((next d)^[k] entry) := fun skipped => other ⟨passes, skipped⟩
      obtain ⟨target', es', code, call, holding', made⟩ := holding.createTo s d i ((next d)^[k] entry)
      cases made with
      | ok name _ fresh =>
        have turn : Turn s d usedPages i ((next d)^[k] entry) target target' := .created passes named call
        have smaller := missing_cons_lt passes name fresh
        rw [few] at smaller
        rcases @ih _ smaller (next d ((next d)^[k] entry)) _ target' rfl holding' with
          ⟨target'', es'', ⟨last, middle, later, stops⟩, after⟩ | ⟨last, middle, later, dots⟩
        · exact .inl ⟨target'', es'', ⟨last, middle, reach.trans (.turn turn later), stops⟩, after⟩
        · exact .inr ⟨last, middle, reach.trans (.turn turn later), dots⟩
      | refused bad => exact .inl ⟨target', es, ⟨_, target, reach, .refused passes named call bad⟩, holding'⟩
    · exact .inl ⟨target, es, ⟨_, target, reach, .nothing passes⟩, holding⟩

def salvageChains (s : Salvaging) (d : DirFile) (fuel n : Nat) (target : DirFile) : Option DirFile :=
  (List.range n).foldlM
    (fun target i => salvageChain s d (computeUsedPages d) i fuel (shortAt d (hashTableAt i)) target) target

theorem salvageChains_succ (fuel n : Nat) (target : DirFile) : salvageChains s d fuel (n + 1) target =
    (salvageChains s d fuel n target).bind (salvageChain s d (computeUsedPages d) n fuel (shortAt d (hashTableAt n))) := by
  rw [salvageChains, range_succ, foldlM_append]
  refine congrArg (Option.bind _) (funext fun middle => ?_)
  exact bind_fun_some _

theorem salvageChains_isSome {n k : Nat} (early : k ≤ n)
    (ended : (salvageChains s d fuel n target).isSome) : (salvageChains s d fuel k target).isSome := by
  induction n with
  | zero => rwa [Nat.le_zero.mp early]
  | succ n ih =>
    rcases Nat.le_succ_iff.mp early with before | rfl
    · rw [salvageChains_succ] at ended
      exact ih before (isSome_of_isSome_bind ended)
    · exact ended

theorem ChainsEnd.salvageChains {n : Nat} (chains : ChainsEnd s d old n target) :
    ∃ made, makeDir s.beyondTo s.junkMade s.me s.parent old = some made ∧
      (∃ m, ∀ fuel ≥ m, salvageChains s d fuel n made = some target) ∧
      ∀ fuel result, salvageChains s d fuel n made = some result → result = target := by
  induction chains with
  | @made target made => exact ⟨target, made, ⟨0, fun _ _ => rfl⟩, fun _ _ same => (Option.some.inj same).symm⟩
  | chain earlier ends ih =>
    obtain ⟨made, makes, ⟨m, enough⟩, only⟩ := ih
    obtain ⟨m', enough'⟩ := ends.salvageChain
    refine ⟨made, makes, ⟨max m m', fun fuel more => ?_⟩, fun fuel result ended => ?_⟩
    · rw [salvageChains_succ, enough fuel (le_of_max_le_left more), bind_some, enough' fuel (le_of_max_le_right more)]
    rw [salvageChains_succ] at ended
    obtain ⟨middle, first, last⟩ := Option.bind_eq_some_iff.mp ended
    rw [only fuel middle first] at last
    exact ends.eq last

def RunsOn (s : Salvaging) (d old : DirFile) : Prop := hasPage d 0 = true ∧ ∃ i < nHashEnt, ∃ target,
  ChainsEnd s d old i target ∧ RunsIntoDots s d (computeUsedPages d) i (shortAt d (hashTableAt i)) target

theorem RunsOn.not_ends (runs : RunsOn s d old) : ¬ Ends s d old := by
  rintro ⟨fuel, result, ended⟩
  obtain ⟨first, i, small, target, chains, dots⟩ := runs
  obtain ⟨made, makes, -, only⟩ := chains.salvageChains
  rw [dirSalvage, makes, bind_some, first, Bool.not_true, if_neg Bool.false_ne_true] at ended
  obtain ⟨last, walked, -⟩ := Option.map_eq_some_iff.mp ended
  have some : (salvageChains s d fuel (i + 1) made).isSome :=
    salvageChains_isSome small (isSome_of_mem walked)
  rw [salvageChains_succ] at some
  obtain ⟨middle, earlier⟩ := Option.isSome_iff_exists.mp (isSome_of_isSome_bind some)
  rw [earlier, only fuel middle earlier, bind_some, dots.salvageChain] at some
  cases some

theorem chainsEnd {n : Nat} (within : n ≤ nHashEnt) (fine : ∀ i < nHashEnt, ∀ target, ChainsEnd s d old i target →
    ¬ RunsIntoDots s d (computeUsedPages d) i (shortAt d (hashTableAt i)) target) :
    ∃ target es, ChainsEnd s d old n target ∧ Holding es target := by
  induction n with
  | zero =>
    obtain ⟨target, pages, made, valid⟩ := makeDir_valid s.beyondTo s.junkMade s.me s.parent old
    exact ⟨target, _, .made made, pages, valid⟩
  | succ n ih =>
    obtain ⟨target, es, chains, holding⟩ := ih (Nat.le_of_succ_le within)
    rcases chainEnds_or rfl holding with ⟨target', es', ends, holding'⟩ | dots
    · exact ⟨target', es', .chain chains ends, holding'⟩
    · exact absurd dots (fine n within target chains)

/-- `DirSalvage` ends unless a chain runs into entries named "." or ".." that follow each other without end. -/
theorem dirSalvage_ends_iff : Ends s d old ↔ ¬ RunsOn s d old := by
  refine ⟨fun ends runs => runs.not_ends ends, fun fine => ?_⟩
  by_cases first : hasPage d 0 = true
  · obtain ⟨target, -, chains, -⟩ := chainsEnd (Nat.le_refl nHashEnt) fun i small target chains dots =>
      fine ⟨first, i, small, target, chains, dots⟩
    obtain ⟨made, makes, ⟨m, enough⟩, -⟩ := chains.salvageChains
    refine ⟨m, (target, .ok), ?_⟩
    rw [dirSalvage, makes, bind_some, first, Bool.not_true, if_neg Bool.false_ne_true]
    exact Option.map_eq_some_iff.mpr ⟨target, enough m (Nat.le_refl m), rfl⟩
  · obtain ⟨made, pages, makes, -⟩ := makeDir_valid s.beyondTo s.junkMade s.me s.parent old
    refine ⟨0, (made, .ok), ?_⟩
    rw [dirSalvage, makes, bind_some, Bool.eq_false_iff.mpr first, Bool.not_false, if_pos rfl]

def dotRing : DirFile := [ [0, 1, 4, 210], zeros (160 + 2 * 46 - 4), [0, 13], zeros (13 * 32 - 160 - 2 * 46 - 2),
    [1, 0, 0, 13, 0, 0, 0, 1, 0, 0, 0, 1, 46], zeros (pageSize - 13 * 32 - 13)
  ].flatten

def dotRingSalvaging : Salvaging := ⟨fun _ => [], fun _ => [], blankPage, fun _ _ => blankPage, ⟨1, 1⟩, ⟨1, 1⟩⟩

theorem dotRing_dotsForever : DotsForever dotRingSalvaging dotRing 1 13 := by
  have back : next dotRing 13 = 13 := by decide +kernel
  have here : ∀ n, (next dotRing)^[n] 13 = 13 := fun n => Function.iterate_fixed back n
  intro n
  rw [here]
  exact ⟨⟨by decide, by decide, by decide +kernel⟩, .inl (by decide +kernel)⟩

/-- `DirSalvage` goes round such an entry for ever. -/
theorem dirSalvage_dotRing : ¬ ∀ s d old, Ends s d old := by
  intro ends
  have pages : computeUsedPages dotRing = 1 := by decide +kernel
  have empty : ∀ i < 46, shortAt dotRing (hashTableAt i) = 0 := by decide +kernel
  have slot : shortAt dotRing (hashTableAt 46) = 13 := by decide +kernel
  obtain ⟨made, -, makes, -⟩ := makeDir_valid (fun _ => []) blankPage ⟨1, 1⟩ ⟨1, 1⟩ []
  have chains : ∀ n ≤ 46, ChainsEnd dotRingSalvaging dotRing [] n made := by
    intro n within
    induction n with
    | zero => exact .made makes
    | succ n ih =>
      refine .chain (ih (by omega)) ⟨_, made, .here _ made, .nothing fun passes => ?_⟩
      exact passes.some (empty n (by omega))
  refine RunsOn.not_ends ?_ (ends dotRingSalvaging dotRing [])
  refine ⟨by decide +kernel, 46, by decide, made, chains 46 (Nat.le_refl 46), 13, made, ?_, ?_⟩
  · rw [slot]
    exact .here 13 made
  · rw [pages]
    exact dotRing_dotsForever

end OpenAFS.Dir
