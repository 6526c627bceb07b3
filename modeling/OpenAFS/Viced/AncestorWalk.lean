import OpenAFS.Lib.Ancestors
import OpenAFS.Viced.NamespaceSound

namespace OpenAFS.Viced

open Lib
open Relation

structure Walking where
  forpass : Nat
  vnum : Nat
  testnode : Nat
  top : Bool

namespace Volume

variable {v v' : Volume} {old new file : Nat} {newFile : Option Nat} {fate : CallFate}

section Walk

variable (v : Volume) (old new file : Nat) (newFile : Option Nat)

def pass (w : Walking) : Walking ⊕ Except Refusal Unit :=
  let vnum := max w.vnum w.testnode
  if w.testnode = 0 then .inr (.ok ())
  else if vnum < w.forpass then .inr (.error ⟨false, fserrEloop⟩)
  else if w.testnode = old then .inl ⟨w.forpass + 1, vnum, (v.vnode old).parent, w.top⟩
  else if w.testnode = file ∨ w.testnode = new ∨ newFile = some w.testnode then .inr (.error ⟨false, fserrEloop⟩)
  else if w.testnode ∉ v.used then .inr (.error ⟨true, eio⟩)
  else
    let parent := (v.vnode w.testnode).parent
    let top := w.top || w.testnode = 1
    if top ∧ parent ≠ 0 then .inr (.error ⟨true, eio⟩) else .inl ⟨w.forpass + 1, vnum, parent, top⟩

def passes : Nat → Walking → Walking ⊕ Except Refusal Unit
  | 0, w => .inl w
  | n + 1, w =>
    match v.pass old new file newFile w with
    | .inl w' => passes n w'
    | .inr r => .inr r

end Walk

theorem pass_goes {w w' : Walking} {bound : Nat} (goes : v.pass old new file newFile w = .inl w') (small : w.vnum ≤ bound)
    (oldSmall : old ≤ bound) (all : ∀ n ∈ v.used, n ≤ bound) :
    w'.forpass = w.forpass + 1 ∧ w.forpass ≤ w'.vnum ∧ w'.vnum ≤ bound := by
  unfold pass at goes
  dsimp only at goes
  split at goes
  · cases goes
  split at goes
  · cases goes
  rename_i room
  split at goes
  · rename_i isOld
    cases goes
    exact ⟨rfl, not_lt.mp room, max_le small (isOld ▸ oldSmall)⟩
  split at goes
  · cases goes
  split at goes
  · cases goes
  rename_i inUse
  split at goes
  · cases goes
  · cases goes
    exact ⟨rfl, not_lt.mp room, max_le small (all _ (not_not.mp inUse))⟩

theorem passes_end {w : Walking} {bound n : Nat} (small : w.vnum ≤ bound) (oldSmall : old ≤ bound)
    (all : ∀ n ∈ v.used, n ≤ bound) (early : w.forpass ≤ bound + 1) (enough : bound + 1 < w.forpass + n) :
    ∃ r, v.passes old new file newFile n w = .inr r := by
  induction n generalizing w with
  | zero => omega
  | succ n ih =>
    unfold passes
    cases goes : v.pass old new file newFile w with
    | inr r => exact ⟨r, rfl⟩
    | inl w' =>
      obtain ⟨next, room, small⟩ := pass_goes goes small oldSmall all
      exact ih small (by omega) (by omega)

theorem walk_succ {n : Nat} {w : Walking} : v.walk old new file newFile (n + 1) w.forpass w.vnum w.testnode w.top =
    (v.pass old new file newFile w).elim (fun w' => v.walk old new file newFile n w'.forpass w'.vnum w'.testnode w'.top) id := by
  unfold pass
  rw [walk]
  dsimp only
  split_ifs <;> rfl

theorem walk_eq {n : Nat} {w : Walking} {r : Except Refusal Unit} (ends : v.passes old new file newFile n w = .inr r) :
    v.walk old new file newFile n w.forpass w.vnum w.testnode w.top = r := by
  induction n generalizing w with
  | zero => cases ends
  | succ n ih =>
    unfold passes at ends
    rw [walk_succ]
    cases goes : v.pass old new file newFile w with
    | inl w' =>
      rw [goes] at ends
      exact ih ends
    | inr r' =>
      rw [goes] at ends
      cases ends
      rfl

def walkStart (v : Volume) (new : Nat) : Walking := ⟨0, 0, (v.vnode new).parent, false⟩

theorem renameWalk_ends (inUse : old ∈ v.used) (differ : old ≠ new) (directory : (v.vnode file).type = .directory) :
    v.passes old new file newFile (v.used.sup id + 3) (v.walkStart new) = .inr (v.renameWalk old new file newFile) := by
  have all : ∀ n ∈ v.used, n ≤ v.used.sup id := fun n inUse => Finset.le_sup (f := id) inUse
  have start : (v.walkStart new).vnum = 0 ∧ (v.walkStart new).forpass = 0 := ⟨rfl, rfl⟩
  obtain ⟨r, ends⟩ := @passes_end v old new file newFile (v.walkStart new) (v.used.sup id) (v.used.sup id + 3)
    (by omega) (all old inUse) all (by omega) (by omega)
  rw [ends, renameWalk, if_pos ⟨differ, directory⟩]
  exact congrArg Sum.inr (walk_eq ends).symm

abbrev Up (v : Volume) : Nat → Nat → Prop := Lib.Up v.tree.IsDir fun d => (v.vnode d).parent

structure Rooted (v : Volume) : Prop where
  zero : 0 ∉ v.used
  top : (v.vnode 1).parent = 0
  tree : Lib.Rooted v.tree.IsDir (fun d => (v.vnode d).parent) 1

def Below (v : Volume) (d above : Nat) : Prop := TransGen v.Up d above

def Target (file new : Nat) (newFile : Option Nat) (n : Nat) : Prop := n = file ∨ n = new ∨ newFile = some n

theorem pass_tree (rooted : v.Rooted) {t : Nat} {seen : Finset Nat} (isDir : v.tree.IsDir t) (inUse : seen ⊆ v.used)
    (oldFree : ¬ Target file new newFile old) (below : ∀ s ∈ seen, v.Below s t) :
    (Target file new newFile t →
      v.pass old new file newFile ⟨seen.card, seen.sup id, t, false⟩ = .inr (.error ⟨false, fserrEloop⟩)) ∧
    (¬ Target file new newFile t → ∃ top, (top = true → (v.vnode t).parent = 0) ∧
      v.pass old new file newFile ⟨seen.card, seen.sup id, t, false⟩ =
        .inl ⟨(insert t seen).card, (insert t seen).sup id, (v.vnode t).parent, top⟩) := by
  have nonzero : t ≠ 0 := fun same => rooted.zero (same ▸ isDir.1)
  have positive : 0 ∉ seen := fun zero => rooted.zero (inUse zero)
  have few := card_le_sup positive
  have room : ¬ max (seen.sup id) t < seen.card := by omega
  have unseen : t ∉ seen := fun met => rooted.tree.acyclic (below t met)
  have card : (insert t seen).card = seen.card + 1 := Finset.card_insert_of_notMem unseen
  have sup : (insert t seen).sup id = max (seen.sup id) t := by
    rw [Finset.sup_insert, max_comm]
    rfl
  unfold pass
  rw [if_neg nonzero, if_neg room, card, sup]
  constructor
  · intro target
    have other : t ≠ old := fun same => oldFree (same ▸ target)
    rw [if_neg other]
    exact if_pos target
  intro free
  by_cases isOld : t = old
  · rw [if_pos isOld, isOld]
    exact ⟨false, Bool.noConfusion, rfl⟩
  have unmet : ¬ (t = file ∨ t = new ∨ newFile = some t) := free
  have atTop : (false || decide (t = 1)) = true → (v.vnode t).parent = 0 := by
    intro isTop
    have isRoot : t = 1 := of_decide_eq_true isTop
    rw [isRoot]
    exact rooted.top
  have used : t ∈ v.used := isDir.1
  refine ⟨_, atTop, ?_⟩
  rw [if_neg isOld, if_neg unmet, if_neg (not_not_intro used), if_neg fun both => both.2 (atTop both.1)]

def Met (v : Volume) (file new : Nat) (newFile : Option Nat) (t : Nat) : Prop :=
  ∃ a, ReflTransGen v.Up t a ∧ v.tree.IsDir a ∧ Target file new newFile a

theorem not_met_zero (rooted : v.Rooted) : ¬ Met v file new newFile 0 := by
  rintro ⟨a, way, isDir, -⟩
  rcases ReflTransGen.cases_head way with rfl | ⟨_, step, -⟩
  · exact rooted.zero isDir.1
  · exact rooted.zero step.1.1

theorem met_iff {t : Nat} (isDir : v.tree.IsDir t) :
    Met v file new newFile t ↔ Target file new newFile t ∨ Met v file new newFile (v.vnode t).parent := by
  constructor
  · rintro ⟨a, way, inside, target⟩
    rcases ReflTransGen.cases_head way with rfl | ⟨next, step, way⟩
    · exact .inl target
    · rw [← step.2] at way
      exact .inr ⟨a, way, inside, target⟩
  · rintro (target | ⟨a, way, inside, target⟩)
    · exact ⟨t, .refl, isDir, target⟩
    · exact ⟨a, .head ⟨isDir, rfl⟩ way, inside, target⟩

theorem walk_zero {n : Nat} {w : Walking} (zero : w.testnode = 0) (left : 0 < n) :
    v.walk old new file newFile n w.forpass w.vnum w.testnode w.top = .ok () := by
  obtain ⟨n, rfl⟩ := Nat.exists_eq_succ_of_ne_zero left.ne'
  rw [walk_succ, pass, if_pos zero]
  rfl

theorem walk_tree (rooted : v.Rooted) {t n : Nat} {seen : Finset Nat} (isDir : v.tree.IsDir t) (inUse : seen ⊆ v.used)
    (oldFree : ¬ Target file new newFile old) (below : ∀ s ∈ seen, v.Below s t)
    (enough : v.used.sup id + 3 ≤ seen.card + n) :
    v.walk old new file newFile n seen.card (seen.sup id) t false = .error ⟨false, fserrEloop⟩ ∧ Met v file new newFile t ∨
      v.walk old new file newFile n seen.card (seen.sup id) t false = .ok () ∧ ¬ Met v file new newFile t := by
  induction n generalizing t seen with
  | zero =>
    have few := card_le_sup fun zero => rooted.zero (inUse zero)
    have small : seen.sup id ≤ v.used.sup id := Finset.sup_mono inUse
    omega
  | succ n ih =>
    have few := card_le_sup fun zero => rooted.zero (inUse zero)
    have small : seen.sup id ≤ v.used.sup id := Finset.sup_mono inUse
    obtain ⟨stops, goes⟩ := pass_tree rooted isDir inUse oldFree below
    have turn := @walk_succ v old new file newFile n ⟨seen.card, seen.sup id, t, false⟩
    rw [turn, met_iff isDir]
    by_cases target : Target file new newFile t
    · rw [stops target]
      exact .inl ⟨rfl, .inl target⟩
    obtain ⟨top, atTop, goes⟩ := goes target
    rw [goes, or_iff_right target]
    by_cases isRoot : (v.vnode t).parent = 0
    · rw [isRoot]
      exact .inr ⟨walk_zero (w := ⟨_, _, 0, top⟩) rfl (by omega), not_met_zero rooted⟩
    have notTop : top = false := Bool.eq_false_iff.mpr fun isTop => isRoot (atTop isTop)
    have other : t ≠ 1 := by
      rintro rfl
      exact isRoot rooted.top
    have above := rooted.tree.parent_node isDir other
    have unseen : t ∉ seen := fun met => rooted.tree.acyclic (below t met)
    have step : v.Up t (v.vnode t).parent := ⟨isDir, rfl⟩
    rw [notTop]
    refine ih above (Finset.insert_subset isDir.1 inUse) ?_ ?_
    · intro s inside
      rcases Finset.mem_insert.mp inside with rfl | earlier
      · exact .single step
      · exact .tail (below s earlier) step
    · rw [Finset.card_insert_of_notMem unseen]
      omega

theorem below_iff {d above : Nat} (isDir : v.tree.IsDir d) : v.Below d above ↔ ReflTransGen v.Up (v.vnode d).parent above := by
  unfold Below
  rw [TransGen.head'_iff]
  constructor
  · rintro ⟨next, step, way⟩
    rwa [← step.2] at way
  · exact fun way => ⟨_, ⟨isDir, rfl⟩, way⟩

theorem renameWalk_tree (rooted : v.Rooted) (newIs : v.tree.IsDir new) (differ : old ≠ new) (fileIs : v.tree.IsDir file)
    (apart : file ≠ old) (targetIs : ∀ n, newFile = some n → v.tree.IsDir n ∧ n ≠ old) :
    v.renameWalk old new file newFile = .error ⟨false, fserrEloop⟩ ∧ (v.Below new file ∨ ∃ n, newFile = some n ∧ v.Below new n) ∨
      v.renameWalk old new file newFile = .ok () ∧ ¬ (v.Below new file ∨ ∃ n, newFile = some n ∧ v.Below new n) := by
  have met : Met v file new newFile (v.vnode new).parent ↔ v.Below new file ∨ ∃ n, newFile = some n ∧ v.Below new n := by
    constructor
    · rintro ⟨a, way, -, rfl | rfl | target⟩
      · exact .inl ((below_iff newIs).mpr way)
      · exact absurd ((below_iff newIs).mpr way) rooted.tree.acyclic
      · exact .inr ⟨a, target, (below_iff newIs).mpr way⟩
    · rintro (below | ⟨n, target, below⟩)
      · exact ⟨file, (below_iff newIs).mp below, fileIs, .inl rfl⟩
      · exact ⟨n, (below_iff newIs).mp below, (targetIs n target).1, .inr (.inr target)⟩
  have oldFree : ¬ Target file new newFile old := by
    rintro (same | same | target)
    · exact apart same.symm
    · exact differ same
    · exact (targetIs old target).2 rfl
  rw [renameWalk, if_pos ⟨differ, fileIs.2⟩, ← met]
  by_cases isRoot : (v.vnode new).parent = 0
  · rw [isRoot]
    exact .inr ⟨walk_zero (w := ⟨0, 0, 0, false⟩) rfl (by omega), not_met_zero rooted⟩
  have other : new ≠ 1 := by
    rintro rfl
    exact isRoot rooted.top
  exact @walk_tree v old new file newFile rooted _ _ ∅ (rooted.tree.parent_node newIs other) (Finset.empty_subset _) oldFree
    (fun s none => absurd none (Finset.notMem_empty s)) (Nat.le_add_left _ _)

variable {oldName newName : Name} {replaceCheck : Int} {found : Fid × Option Fid} {fid newDir : Fid}

theorem renameLookup_found (looked : v.renameLookup old new oldName newName replaceCheck = .ok found) :
    v.lookup old oldName = some found.1 ∧ v.lookup new newName = found.2 ∧
      (found.1.vnode ≠ old ∧ found.1.vnode ≠ new) ∧ found.1.vnode ∈ v.used ∧
      ∀ fid, found.2 = some fid → fid.vnode ∈ v.used ∧ fid.vnode ≠ old ∧ fid.vnode ≠ new ∧ fid.vnode ≠ found.1.vnode ∧
        ((v.vnode fid.vnode).type = .directory ↔ (v.vnode found.1.vnode).type = .directory) := by
  unfold renameLookup at looked
  cases oldFound : v.lookup old oldName with
  | none => rw [oldFound] at looked; cases looked
  | some fileFid =>
    rw [oldFound] at looked
    obtain ⟨apart, looked⟩ := ensure_then.mp looked
    obtain ⟨inUse, looked⟩ := ensure_then.mp looked
    obtain ⟨-, looked⟩ := ensure_then.mp looked
    obtain ⟨-, looked⟩ := ensure_then.mp looked
    cases newFound : v.lookup new newName with
    | none =>
      rw [newFound] at looked
      cases looked
      exact ⟨rfl, rfl, apart, inUse, fun fid none => by cases none⟩
    | some newFid =>
      rw [newFound] at looked
      obtain ⟨-, looked⟩ := ensure_then.mp looked
      obtain ⟨⟨notOld, notNew, notFile⟩, looked⟩ := ensure_then.mp looked
      obtain ⟨newInUse, looked⟩ := ensure_then.mp looked
      obtain ⟨overFile, looked⟩ := ensure_then.mp looked
      obtain ⟨-, looked⟩ := ensure_then.mp looked
      obtain ⟨overDir, looked⟩ := ensure_then.mp looked
      cases looked
      refine ⟨rfl, rfl, apart, inUse, fun fid same => ?_⟩
      cases same
      exact ⟨newInUse, notOld, notNew, notFile, overFile, fun directory => by_contra fun other => overDir other directory⟩

theorem renameLookup_identity (found : v.lookup old oldName = some fid) (same : fid.vnode = old ∨ fid.vnode = new) :
    v.renameLookup old new oldName newName replaceCheck = .error ⟨false, fserrEloop⟩ := by
  unfold renameLookup
  rw [found]
  refine ensure_fails_or.mpr (.inl ⟨?_, rfl⟩)
  rw [not_and_or, not_not, not_not]
  exact same

theorem renameChecks_identity (found : v.lookup old oldName = some fid) (same : fid.vnode = old ∨ fid.vnode = new) :
    v.renameChecks old new oldName newName replaceCheck = .error ⟨false, fserrEloop⟩ :=
  except_bind_eq_error.mpr (.inl (renameLookup_identity found same))

theorem renameChecks_tree (rooted : v.Rooted)
    (newIs : v.tree.IsDir new) (differ : old ≠ new) (found : v.lookup old oldName = some fid)
    (directory : (v.vnode fid.vnode).type = .directory)
    (others : ∀ refusal, v.renameLookup old new oldName newName replaceCheck = .error refusal →
      fid.vnode = old ∨ fid.vnode = new) :
    v.renameChecks old new oldName newName replaceCheck = .error ⟨false, fserrEloop⟩ ↔
      fid.vnode = old ∨ new = fid.vnode ∨ v.Below new fid.vnode ∨
        ∃ target, v.lookup new newName = some target ∧ v.Below new target.vnode := by
  cases looked : v.renameLookup old new oldName newName replaceCheck with
  | error refusal =>
    have same := others refusal looked
    refine iff_of_true ?_ (same.imp id fun into => .inl into.symm)
    exact renameChecks_identity found same
  | ok looked' =>
    obtain ⟨fileSame, newSame, ⟨notOld, notNew⟩, inUse, target⟩ := renameLookup_found looked
    obtain ⟨file, newFile⟩ := looked'
    dsimp only at fileSame newSame notOld notNew inUse target
    rw [found] at fileSame
    cases fileSame
    have targetIs : ∀ n, newFile.map Fid.vnode = some n → v.tree.IsDir n ∧ n ≠ old := by
      intro n some
      obtain ⟨target', same, rfl⟩ := Option.map_eq_some_iff.mp some
      obtain ⟨used, notOld, -, -, type⟩ := target target' same
      exact ⟨⟨used, type.mpr directory⟩, notOld⟩
    have exists_ : (∃ n, newFile.map Fid.vnode = some n ∧ v.Below new n) ↔
        ∃ target, v.lookup new newName = some target ∧ v.Below new target.vnode := by
      rw [newSame]
      constructor
      · rintro ⟨n, some, below⟩
        obtain ⟨target', same, rfl⟩ := Option.map_eq_some_iff.mp some
        exact ⟨target', same, below⟩
      · rintro ⟨target', rfl, below⟩
        exact ⟨_, rfl, below⟩
    have checks : v.renameChecks old new oldName newName replaceCheck = .error ⟨false, fserrEloop⟩ ↔
        v.renameWalk old new fid.vnode (newFile.map Fid.vnode) = .error ⟨false, fserrEloop⟩ := by
      refine except_bind_eq_error.trans ?_
      rw [looked]
      constructor
      · rintro (none | ⟨_, same, walked⟩)
        · cases none
        cases same
        rcases except_bind_eq_error.mp walked with failed | ⟨_, _, none⟩
        · exact failed
        · cases none
      · exact fun failed => .inr ⟨_, rfl, except_bind_eq_error.mpr (.inl failed)⟩
    rw [checks, or_iff_right notOld, or_iff_right (Ne.symm notNew), ← exists_]
    rcases renameWalk_tree rooted newIs differ ⟨inUse, directory⟩ notOld targetIs with ⟨failed, met⟩ | ⟨passes, unmet⟩
    · exact iff_of_true failed met
    · refine iff_of_false (fun failed => ?_) unmet
      rw [passes] at failed
      cases failed

variable {w : Volume}

theorem Same.rooted (same : Same v v') (rooted : v.Rooted) : v'.Rooted where
  zero := same.used ▸ rooted.zero
  top := (congrArg Node.parent (same.node 1)).trans rooted.top
  tree := by
    have parents : (fun d => (v'.vnode d).parent) = fun d => (v.vnode d).parent :=
      funext fun d => congrArg Node.parent (same.node d)
    rw [same.tree, parents]
    exact rooted.tree

theorem Rooted.after (rooted : w.Rooted) {f p : Nat} (gone : Nat → Prop) (newIs : w.tree.IsDir p) (newStays : ¬ gone p)
    (used : ∀ m, m ∈ v'.used ↔ m ∈ w.used ∧ ¬ gone m) (type : ∀ m, (v'.vnode m).type = (w.vnode m).type)
    (parent : ∀ m, (v'.vnode m).parent = if m = f then p else (w.vnode m).parent)
    (empty : ∀ d, gone d → w.tree.IsDir d → ∀ m, w.tree.IsDir m → (w.vnode m).parent ≠ d)
    (moved : w.tree.IsDir f → f ≠ 1 ∧ ((w.vnode f).parent = p ∨ ¬ ReflTransGen w.Up p f)) : v'.Rooted := by
  have isDir (m : Nat) : v'.tree.IsDir m ↔ w.tree.IsDir m ∧ ¬ gone m := by
    unfold Tree.IsDir
    rw [tree_used, tree_used, tree_node, tree_node, used, type]
    tauto
  have rootStays : ¬ gone 1 := by
    intro goes
    rcases ReflTransGen.cases_tail (rooted.tree.climbs p newIs) with same | ⟨m, -, step⟩
    · exact newStays (same ▸ goes)
    · exact empty 1 goes rooted.tree.isNode m step.1 step.2
  have other : f ≠ 1 := by
    rintro rfl
    exact (moved rooted.tree.isNode).1 rfl
  refine ⟨fun zero => rooted.zero ((used 0).mp zero).1, ?_, ?_⟩
  · rw [parent, if_neg other.symm]
    exact rooted.top
  refine rooted.tree.move (f := f) (fun d inside => ((isDir d).mp inside).1) ((isDir 1).mpr ⟨rooted.tree.isNode, rootStays⟩)
    (fun d _ apart => by rw [parent, if_neg apart]) (fun d inside _ notRoot => ?_) (fun inside => ?_)
  · have old := ((isDir d).mp inside).1
    have above := rooted.tree.parent_node old notRoot
    exact (isDir _).mpr ⟨above, fun goes => empty _ goes above d old rfl⟩
  · obtain ⟨-, way⟩ := moved ((isDir f).mp inside).1
    rw [parent, if_pos rfl]
    exact ⟨other, (isDir p).mpr ⟨newIs, newStays⟩, way.imp_left Eq.symm⟩

theorem renamePrepare_checks {oldDir file : Fid} {newFile : Option Fid}
    (prepared : v.renamePrepare oldDir oldName newDir newName fate = .ok (w, file, newFile)) :
    ∃ v₂, Same v v₂ ∧ Same v₂ w ∧
      v₂.renameChecks oldDir.vnode newDir.vnode oldName newName fate.replaceCheck = .ok (file, newFile) := by
  obtain ⟨-, prepared⟩ := ensure_then.mp prepared
  obtain ⟨-, prepared⟩ := ensure_then.mp prepared
  obtain ⟨-, prepared⟩ := ensure_then.mp prepared
  obtain ⟨v₁, copied, prepared⟩ := except_bind_eq_ok.mp prepared
  obtain ⟨-, rfl⟩ := proceed_ok.mp copied
  obtain ⟨v₂, copied, prepared⟩ := except_bind_eq_ok.mp prepared
  obtain ⟨-, rfl⟩ := proceed_ok.mp copied
  have same := (copyIfCloned_same v oldDir.vnode fate).trans
    (copyIfCloned_same (v.copyIfCloned oldDir.vnode fate).1 newDir.vnode fate)
  generalize ((v.copyIfCloned oldDir.vnode fate).1.copyIfCloned newDir.vnode fate).1 = v₂ at same prepared
  obtain ⟨found, checked, prepared⟩ := except_bind_eq_ok.mp prepared
  obtain ⟨v₃, copied, done⟩ := except_bind_eq_ok.mp prepared
  cases done
  obtain ⟨-, rfl⟩ := proceed_ok.mp copied
  refine ⟨v₂, same, ?_, ?_⟩
  · split
    · exact copyIfCloned_same v₂ _ fate
    · exact Same.refl v₂
  cases checks : v₂.renameChecks oldDir.vnode newDir.vnode oldName newName fate.replaceCheck with
  | error refusal => rw [checks] at checked; cases checked
  | ok found' =>
    rw [checks] at checked
    cases checked
    rfl

theorem moveEntry_after {old : Nat} {file : Fid}
    (inside : oldName ∈ (w.vnode old).entries.map Prod.fst) (apart : file.vnode ≠ old ∧ file.vnode ≠ newDir.vnode)
    (success : (w.moveEntry old oldName newDir newName file fate).2 = 0) :
    (w.moveEntry old oldName newDir newName file fate).1.used = w.used ∧
      ∀ m, ((w.moveEntry old oldName newDir newName file fate).1.vnode m).type = (w.vnode m).type ∧
        ((w.moveEntry old oldName newDir newName file fate).1.vnode m).parent =
          if m = file.vnode then newDir.vnode else (w.vnode m).parent := by
  obtain ⟨-, w', moved, eq⟩ := moveEntry_moved inside (andThen_success.mp success).1
  rw [eq]
  refine ⟨setParent_used.trans moved.used, fun m => ?_⟩
  have node : (w'.vnode m).type = (w.vnode m).type ∧ (w'.vnode m).parent = (w.vnode m).parent := by
    by_cases isNew : m = newDir.vnode
    · rw [isNew]
      exact ⟨(congrArg Node.type moved.atNew).trans rfl, (congrArg Node.parent moved.atNew).trans rfl⟩
    by_cases isOld : m = old
    · have differ : old ≠ newDir.vnode := isOld ▸ isNew
      rw [isOld]
      exact ⟨(congrArg Node.type (moved.atOld differ)).trans rfl, (congrArg Node.parent (moved.atOld differ)).trans rfl⟩
    · have same := (moved.others m isOld isNew).1
      exact ⟨congrArg Node.type same, congrArg Node.parent same⟩
  have after := @setParent_node w' old newDir file apart m
  constructor
  · refine (congrArg Node.type after).trans ?_
    split <;> exact node.1
  refine (congrArg Node.parent after).trans ?_
  split
  · rfl
  · exact node.2

theorem Same.lookup (same : Same v v') (d : Nat) (name : Name) : v'.lookup d name = v.lookup d name := by
  unfold Volume.lookup
  rw [congrArg Node.entries (same.node d)]

/-- The names of a rename agree with the parents: a directory that stays in its directory has that directory as its
parent, and a directory that is deleted for its name is the parent of none. -/
structure Agrees (v : Volume) (old new : Nat) (oldName newName : Name) : Prop where
  moved : old = new → ∀ fid, v.lookup old oldName = some fid → (v.vnode fid.vnode).type = .directory →
    (v.vnode fid.vnode).parent = old
  replaced : ∀ fid, v.lookup new newName = some fid → v.tree.IsDir fid.vnode → (v.vnode fid.vnode).linkCount = 1 →
    ∀ d, v.tree.IsDir d → (v.vnode d).parent ≠ fid.vnode

theorem Same.agrees (same : Same v v') (agrees : v.Agrees old new oldName newName) : v'.Agrees old new oldName newName where
  moved one fid found directory := by
    rw [same.lookup] at found
    rw [congrArg Node.type (same.node _)] at directory
    rw [congrArg Node.parent (same.node _)]
    exact agrees.moved one fid found directory
  replaced fid found isDir last d inside := by
    rw [same.lookup] at found
    rw [same.tree] at isDir inside
    rw [congrArg Node.linkCount (same.node _)] at last
    rw [congrArg Node.parent (same.node _)]
    exact agrees.replaced fid found isDir last d inside

theorem renameChecks_ok (checked : v.renameChecks old new oldName newName replaceCheck = .ok found) :
    v.renameLookup old new oldName newName replaceCheck = .ok found ∧
      v.renameWalk old new found.1.vnode (found.2.map Fid.vnode) = .ok () := by
  obtain ⟨found', looked, rest⟩ := except_bind_eq_ok.mp checked
  obtain ⟨_, walked, same⟩ := except_bind_eq_ok.mp rest
  cases same
  exact ⟨looked, walked⟩

theorem renameChecks_moved (rooted : v.Rooted) (newIs : v.tree.IsDir new) (agrees : v.Agrees old new oldName newName)
    (checked : v.renameChecks old new oldName newName replaceCheck = .ok found) (fileIs : v.tree.IsDir found.1.vnode) :
    found.1.vnode ≠ 1 ∧ ((v.vnode found.1.vnode).parent = new ∨ ¬ ReflTransGen v.Up new found.1.vnode) := by
  obtain ⟨looked, walked⟩ := renameChecks_ok checked
  obtain ⟨fileSame, -, apart, -, target⟩ := renameLookup_found looked
  by_cases one : old = new
  · have parent := agrees.moved one _ fileSame fileIs.2
    refine ⟨?_, .inl (parent.trans one)⟩
    intro isRoot
    rw [isRoot, rooted.top] at parent
    rw [← one, ← parent] at newIs
    exact rooted.zero newIs.1
  have targetIs : ∀ n, found.2.map Fid.vnode = some n → v.tree.IsDir n ∧ n ≠ old := by
    intro n some
    obtain ⟨target', same, rfl⟩ := Option.map_eq_some_iff.mp some
    obtain ⟨used, notOld, -, -, type⟩ := target target' same
    exact ⟨⟨used, type.mpr fileIs.2⟩, notOld⟩
  have unmet : ¬ ReflTransGen v.Up new found.1.vnode := by
    intro way
    rcases reflTransGen_iff_eq_or_transGen.mp way with same | below
    · exact apart.2 same
    rcases renameWalk_tree rooted newIs one fileIs apart.1 targetIs with ⟨failed, -⟩ | ⟨-, unmet⟩
    · rw [walked] at failed
      cases failed
    · exact unmet (.inl below)
  refine ⟨?_, .inr unmet⟩
  intro isRoot
  rw [isRoot] at unmet
  exact unmet (rooted.tree.climbs new newIs)

theorem rename_rooted (rooted : v.Rooted) {oldDir : Fid} (agrees : v.Agrees oldDir.vnode newDir.vnode oldName newName)
    (success : (v.rename oldDir oldName newDir newName fate).2 = 0) :
    (v.rename oldDir oldName newDir newName fate).1.Rooted := by
  unfold rename at success ⊢
  cases prepares : v.renamePrepare oldDir oldName newDir newName fate with
  | error r => exact (renamePrepare_error prepares).rooted rooted
  | ok found =>
    obtain ⟨w, file, newFile⟩ := found
    rw [prepares] at success
    dsimp only at success ⊢
    have prepared := renamePrepare_ok prepares
    obtain ⟨v₂, before, after, checked⟩ := renamePrepare_checks prepares
    obtain ⟨looked, -⟩ := renameChecks_ok checked
    obtain ⟨fileSame, newSame, -, -, -⟩ := renameLookup_found looked
    have rooted₂ := before.rooted rooted
    have rootedW := after.rooted rooted₂
    have agrees₂ := before.agrees agrees
    have newIs := prepared.newIsDir
    have moved : w.tree.IsDir file.vnode → file.vnode ≠ 1 ∧
        ((w.vnode file.vnode).parent = newDir.vnode ∨ ¬ ReflTransGen w.Up newDir.vnode file.vnode) := by
      intro fileIs
      have parents : (fun d => (w.vnode d).parent) = fun d => (v₂.vnode d).parent :=
        funext fun d => congrArg Node.parent (after.node d)
      rw [after.tree] at fileIs newIs
      unfold Volume.Up
      rw [congrArg Node.parent (after.node _), parents, after.tree]
      exact renameChecks_moved rooted₂ newIs agrees₂ checked fileIs
    have inside : oldName ∈ (w.vnode oldDir.vnode).entries.map Prod.fst :=
      List.mem_map_of_mem (f := Prod.fst) (Tree.mem_children.mp prepared.inside).2.1
    cases newFile with
    | none =>
      rw [Option.elim_none] at success ⊢
      obtain ⟨used, nodes⟩ := moveEntry_after inside prepared.apart success
      exact rootedW.after (fun _ => False) newIs not_false (fun m => by rw [used, not_false_eq_true, and_true])
        (fun m => (nodes m).1) (fun m => (nodes m).2) (fun d absurd => absurd.elim) moved
    | some fid =>
      rw [Option.elim_some] at success ⊢
      obtain ⟨-, -, notOld, notNew, notFile⟩ := prepared.target fid rfl
      have node := @replaceTarget_node w _ newName _ notNew
      have inside' : oldName ∈ ((w.replaceTarget newDir.vnode newName fid.vnode).vnode oldDir.vnode).entries.map
          Prod.fst := by
        have here := node oldDir.vnode
        rw [if_neg notOld.symm] at here
        rw [congrArg Node.entries here]
        split
        · rename_i one
          have names : oldName ≠ newName := by
            intro same
            rw [one, same, newSame] at fileSame
            exact notFile (congrArg Fid.vnode (Option.some.inj fileSame))
          obtain ⟨e, there, key⟩ := List.mem_map.mp inside
          rw [one] at there
          refine List.mem_map.mpr ⟨e, List.mem_filter.mpr ⟨there, decide_eq_true ?_⟩, key⟩
          rw [key]
          exact names
        · exact inside
      obtain ⟨used, nodes⟩ := moveEntry_after inside' prepared.apart success
      have kept (m : Nat) : ((w.replaceTarget newDir.vnode newName fid.vnode).vnode m).type = (w.vnode m).type ∧
          ((w.replaceTarget newDir.vnode newName fid.vnode).vnode m).parent = (w.vnode m).parent := by
        have here := node m
        constructor
        · refine (congrArg Node.type here).trans ?_
          split
          · rename_i same
            rw [same]
          split
          · rename_i same
            rw [same]
          · rfl
        refine (congrArg Node.parent here).trans ?_
        split
        · rename_i same
          rw [same]
        split
        · rename_i same
          rw [same]
        · rfl
      have agreesW := after.agrees agrees₂
      rw [← after.lookup] at newSame
      refine rootedW.after (fun m => m = fid.vnode ∧ (w.vnode fid.vnode).linkCount = 1) newIs
        (fun gone => notNew gone.1.symm) ?_ ?_ ?_ ?_ moved
      · intro m
        rw [used, replaceTarget_used notNew]
        split
        · rename_i last
          rw [Finset.mem_erase, and_iff_left last]
          exact and_comm
        · rename_i more
          rw [and_iff_left fun gone => more gone.2]
      · exact fun m => (nodes m).1.trans (kept m).1
      · intro m
        rw [(nodes m).2, (kept m).2]
      · rintro d ⟨rfl, last⟩ isDir m inside
        exact agreesW.replaced fid newSame isDir last m inside

/-- The walk of a rename ends. In a tree, a move with which the other checks find no fault is refused exactly if the
directory is the old directory, or the new one is the directory, or lies below it or below the one replaced; and a rename
whose names agree with the parents leaves a tree. -/
theorem rename_tree (v : Volume) : (∀ old new file newFile, ∃ n r, v.passes old new file newFile n (v.walkStart new) = .inr r ∧
      (old ∈ v.used → old ≠ new → (v.vnode file).type = .directory → r = v.renameWalk old new file newFile)) ∧
    (v.Rooted → ∀ old new oldName newName replaceCheck fid, v.tree.IsDir new → old ≠ new →
      v.lookup old oldName = some fid → (v.vnode fid.vnode).type = .directory →
      (∀ refusal, v.renameLookup old new oldName newName replaceCheck = .error refusal → fid.vnode = old ∨ fid.vnode = new) →
      (v.renameChecks old new oldName newName replaceCheck = .error ⟨false, fserrEloop⟩ ↔
        fid.vnode = old ∨ new = fid.vnode ∨ v.Below new fid.vnode ∨
          ∃ target, v.lookup new newName = some target ∧ v.Below new target.vnode)) ∧
    (v.Rooted → ∀ oldDir newDir oldName newName fate, v.Agrees oldDir.vnode newDir.vnode oldName newName →
      (v.rename oldDir oldName newDir newName fate).2 = 0 → (v.rename oldDir oldName newDir newName fate).1.Rooted) := by
  refine ⟨fun old new file newFile => ?_, fun rooted old new oldName newName replaceCheck fid newIs differ found directory
    others => renameChecks_tree rooted newIs differ found directory others,
    fun rooted oldDir newDir oldName newName fate agrees success => rename_rooted rooted agrees success⟩
  by_cases ends : old ∈ v.used ∧ old ≠ new ∧ (v.vnode file).type = .directory
  · exact ⟨_, _, renameWalk_ends ends.1 ends.2.1 ends.2.2, fun _ _ _ => rfl⟩
  have all : ∀ n ∈ v.used, n ≤ max old (v.used.sup id) :=
    fun n inUse => (Finset.le_sup (f := id) inUse).trans (le_max_right _ _)
  obtain ⟨r, ended⟩ := @passes_end v old new file newFile (v.walkStart new) (max old (v.used.sup id))
    (max old (v.used.sup id) + 2) (Nat.zero_le _) (le_max_left _ _) all (Nat.zero_le _)
    (by rw [walkStart]; omega)
  exact ⟨_, r, ended, fun inUse differ directory => absurd ⟨inUse, differ, directory⟩ ends⟩

def dirVolume (used : Finset Nat) (parent : Nat → Nat) (entries : Nat → List (Name × Fid)) : Volume where
  used
  vnode n := { type := .directory, unique := n, parent := parent n, linkCount := if n = 7 then 1 else 2
               entries := entries n, length := 2048 }
  nextUnique := 20
  data _ := []
  links _ := 0
  diskused := 0
  maxquota := 0
  free := 1000
  online := true

theorem dirVolume_rooted {used : Finset Nat} {parent : Nat → Nat} {entries : Nat → List (Name × Fid)} (zero : 0 ∉ used)
    (root : 1 ∈ used) (top : parent 1 = 0) (up : ∀ n ∈ used, n ≠ 1 → parent n ∈ used ∧ parent n < n) :
    (dirVolume used parent entries).Rooted := by
  refine ⟨zero, top, ⟨root, rfl⟩, fun isDir => zero ?_, fun d isDir => ?_⟩
  · have inUse : parent 1 ∈ used := isDir.1
    rwa [top] at inUse
  have inUse : d ∈ used := isDir.1
  clear isDir
  induction d using Nat.strong_induction_on with
  | h d ih =>
    by_cases isRoot : d = 1
    · rw [isRoot]
    · obtain ⟨above, less⟩ := up d inUse isRoot
      exact .head ⟨⟨inUse, rfl⟩, rfl⟩ (ih (parent d) less above)

def nameA : Name := [97]
def nameB : Name := [98]

def siblings : Volume :=
  dirVolume {1, 3, 5} (fun n => if n = 1 then 0 else 1) fun n => if n = 1 then [(nameA, ⟨5, 5⟩)] else []

theorem siblings_rooted : siblings.Rooted :=
  dirVolume_rooted (by decide) (by decide) rfl (by decide)

/-- The one is moved into the other. -/
theorem rename_tree_siblings : (siblings.rename ⟨1, 1⟩ nameA ⟨3, 3⟩ nameB {}).1.Rooted :=
  (rename_tree siblings).2.2 siblings_rooted ⟨1, 1⟩ ⟨3, 3⟩ nameA nameB {}
    ⟨fun same => absurd same (by decide), fun fid found => by
      have none : siblings.lookup 3 nameB = none := by decide
      rw [none] at found
      cases found⟩
    (by decide)

def selfEntry : Volume :=
  dirVolume {1, 3, 5} (fun n => if n = 1 then 0 else 1) fun n => if n = 3 then [(nameA, ⟨3, 3⟩)] else []

def parentEntry : Volume :=
  dirVolume {1, 3, 5} (fun n => if n = 1 then 0 else if n = 3 then 1 else 3) fun n => if n = 5 then [(nameA, ⟨3, 3⟩)] else []

def lostChild : Volume :=
  dirVolume {1, 3, 5, 7, 9} (fun n => if n = 1 then 0 else if n = 7 then 3 else if n = 9 then 7 else 1) fun n =>
    if n = 1 then [(nameA, ⟨5, 5⟩)] else if n = 3 then [(nameB, ⟨7, 7⟩)] else []

/-- Where names and parents do not agree, a move is refused though the new directory lies elsewhere; a rename within a
directory makes a cycle; and a rename over a directory takes it away from its children. -/
theorem rename_tree_disagree :
    (¬ ∀ v : Volume, v.Rooted → ∀ old new oldName newName replaceCheck fid, v.tree.IsDir new → old ≠ new →
      v.lookup old oldName = some fid → (v.vnode fid.vnode).type = .directory →
      (∀ refusal, v.renameLookup old new oldName newName replaceCheck = .error refusal → fid.vnode = old ∨ fid.vnode = new) →
      (v.renameChecks old new oldName newName replaceCheck = .error ⟨false, fserrEloop⟩ ↔
        new = fid.vnode ∨ v.Below new fid.vnode ∨ ∃ target, v.lookup new newName = some target ∧ v.Below new target.vnode)) ∧
    (¬ ∀ v : Volume, v.Rooted → ∀ (oldDir newDir : Fid) oldName newName fate,
      (v.lookup newDir.vnode newName = none) → (v.rename oldDir oldName newDir newName fate).2 = 0 →
      (v.rename oldDir oldName newDir newName fate).1.Rooted) ∧
    ¬ ∀ v : Volume, v.Rooted → ∀ (oldDir newDir : Fid) oldName newName fate, oldDir.vnode ≠ newDir.vnode →
      (v.rename oldDir oldName newDir newName fate).2 = 0 → (v.rename oldDir oldName newDir newName fate).1.Rooted := by
  refine ⟨fun exactly => ?_, fun keeps => ?_, fun keeps => ?_⟩
  · have rooted : selfEntry.Rooted := dirVolume_rooted (by decide) (by decide) rfl (by decide)
    have newIs : selfEntry.tree.IsDir 5 := by decide
    have root : selfEntry.tree.IsDir 3 := by decide
    have found : selfEntry.lookup 3 nameA = some ⟨3, 3⟩ := by decide
    have refused : selfEntry.renameChecks 3 5 nameA nameB 0 = .error ⟨false, fserrEloop⟩ :=
      renameChecks_identity found (.inl rfl)
    have here := (exactly selfEntry rooted 3 5 nameA nameB 0 ⟨3, 3⟩ newIs (by decide) found rfl fun _ _ => .inl rfl).mp
      refused
    rcases here with same | below | ⟨target, found, -⟩
    · cases same
    · have way := (below_iff newIs).mp below
      have isRoot := rooted.tree.of_root way root
      cases isRoot
    · have none : selfEntry.lookup 5 nameB = none := by decide
      rw [none] at found
      cases found
  · have rooted : parentEntry.Rooted := dirVolume_rooted (by decide) (by decide) rfl (by decide)
    have after := keeps parentEntry rooted ⟨5, 5⟩ ⟨5, 5⟩ nameA nameB {} (by decide) (by decide)
    generalize renamed : (parentEntry.rename ⟨5, 5⟩ nameA ⟨5, 5⟩ nameB {}).1 = w at after
    have three : w.tree.IsDir 3 ∧ (w.vnode 3).parent = 5 := by
      rw [← renamed]
      decide
    have five : w.tree.IsDir 5 ∧ (w.vnode 5).parent = 3 := by
      rw [← renamed]
      decide
    exact after.tree.acyclic (.head ⟨three.1, three.2⟩ (.single ⟨five.1, five.2⟩))
  · have rooted : lostChild.Rooted := dirVolume_rooted (by decide) (by decide) rfl (by decide)
    have after := keeps lostChild rooted ⟨1, 1⟩ ⟨3, 3⟩ nameA nameB {} (by decide) (by decide)
    generalize renamed : (lostChild.rename ⟨1, 1⟩ nameA ⟨3, 3⟩ nameB {}).1 = w at after
    have nine : w.tree.IsDir 9 ∧ (w.vnode 9).parent = 7 ∧ ¬ w.tree.IsDir 7 := by
      rw [← renamed]
      decide
    have above := after.tree.parent_node nine.1 (by decide)
    rw [nine.2.1] at above
    exact nine.2.2 above

end Volume

end OpenAFS.Viced
