import Mathlib.Data.Finset.Card
import OpenAFS.Dir.Directory

namespace OpenAFS.Viced

open List

open Function (update update_self update_of_ne)

open OpenAFS.Dir (dot dotdot)

abbrev Name := List UInt8

inductive VnodeType where
  | file
  | directory
  | symlink
  deriving DecidableEq, Repr

structure Fid where
  vnode : Nat
  unique : Nat
  deriving DecidableEq, Repr

structure Node where
  type : VnodeType
  unique : Nat
  parent : Nat := 0
  linkCount : Int := 0
  entries : List (Name × Fid) := []

structure Tree where
  used : Finset Nat
  node : Nat → Node

namespace Tree

def Dots (name : Name) : Prop := name = dot ∨ name = dotdot

instance (name : Name) : Decidable (Dots name) := inferInstanceAs (Decidable (_ ∨ _))

def IsDir (t : Tree) (d : Nat) : Prop := d ∈ t.used ∧ (t.node d).type = .directory

instance (t : Tree) (d : Nat) : Decidable (t.IsDir d) := inferInstanceAs (Decidable (_ ∧ _))

def children (t : Tree) (d : Nat) : List (Name × Fid) :=
  if t.IsDir d then (t.node d).entries.filter fun e => ¬ Dots e.1 else []

def names (t : Tree) (d n : Nat) : Nat := (t.children d).countP fun e => e.2.vnode = n

def subdirs (t : Tree) (transit : Option Nat) (d : Nat) : Finset Nat :=
  t.used.filter fun n => (t.node n).type = .directory ∧ (t.node n).parent = d ∧ transit ≠ some n

/-- Names and links agree, but for the vnode in transit: a directory in transit is named nowhere, and another vnode in
transit has a link too many. -/
structure ConsistentBut (t : Tree) (transit : Option Nat) : Prop where
  zero : 0 ∉ t.used
  root : t.IsDir 1 ∧ (t.node 1).parent = 0 ∧ transit ≠ some 1
  keys : ∀ d, t.IsDir d → ((t.node d).entries.map Prod.fst).Nodup
  dots : ∀ d, t.IsDir d → dot ∈ (t.node d).entries.map Prod.fst ∧ dotdot ∈ (t.node d).entries.map Prod.fst
  up : ∀ d, t.IsDir d → d ≠ 1 → transit ≠ some d → ∃ unique, (dotdot, ⟨(t.node d).parent, unique⟩) ∈ (t.node d).entries
  child : ∀ d, ∀ e ∈ t.children d, e.2.vnode ∈ t.used ∧ (t.node e.2.vnode).unique = e.2.unique ∧ (t.node e.2.vnode).parent = d
  home : ∀ n ∈ t.used, n ≠ 1 → transit ≠ some n → t.IsDir (t.node n).parent
  directory : ∀ n, t.IsDir n → n ≠ 1 → t.names (t.node n).parent n = if transit = some n then 0 else 1
  file : ∀ n ∈ t.used, (t.node n).type ≠ .directory →
    (t.node n).linkCount = t.names (t.node n).parent n + if transit = some n then 1 else 0
  named : ∀ n ∈ t.used, (t.node n).type ≠ .directory → transit ≠ some n → t.names (t.node n).parent n ≠ 0
  subdirectories : ∀ d, t.IsDir d → (t.node d).linkCount = 2 + (t.subdirs transit d).card

abbrev Consistent (t : Tree) : Prop := t.ConsistentBut none

variable {t t' : Tree} {transit : Option Nat} {n m d w : Nat} {name : Name} {fid : Fid}

theorem mem_children {e : Name × Fid} : e ∈ t.children d ↔ t.IsDir d ∧ e ∈ (t.node d).entries ∧ ¬ Dots e.1 := by
  unfold children
  split
  · rename_i dir
    rw [mem_filter, decide_eq_true_iff, and_iff_right dir]
  · rename_i dir
    exact iff_of_false not_mem_nil fun all => dir all.1

theorem ConsistentBut.names_eq_zero (cons : t.ConsistentBut transit) (other : (t.node n).parent ≠ d) : t.names d n = 0 := by
  unfold names
  rw [countP_eq_zero]
  intro e inside named
  rw [decide_eq_true_iff] at named
  have parent := (cons.child d e inside).2.2
  rw [named] at parent
  exact other parent

theorem names_ne_zero : t.names d n ≠ 0 ↔ ∃ e ∈ t.children d, e.2.vnode = n := by
  unfold names
  rw [← Nat.pos_iff_ne_zero, countP_pos_iff]
  simp only [decide_eq_true_eq]

theorem isDir_congr (used : m ∈ t'.used ↔ m ∈ t.used) (type : (t'.node m).type = (t.node m).type) : t'.IsDir m ↔ t.IsDir m := by
  unfold IsDir
  rw [used, type]

theorem children_congr (dir : t'.IsDir d ↔ t.IsDir d) (entries : (t'.node d).entries = (t.node d).entries) :
    t'.children d = t.children d := by
  unfold children
  simp only [dir, entries]

theorem children_append (dir : t.IsDir d) (dir' : t'.IsDir d) (plain : ¬ Dots name)
    (entries : (t'.node d).entries = (t.node d).entries ++ [(name, fid)]) :
    t'.children d = t.children d ++ [(name, fid)] := by
  unfold children
  rw [if_pos dir, if_pos dir', entries, filter_append]
  congr 1
  exact filter_cons_of_pos (by simpa using plain)

theorem names_append (children : t'.children d = t.children d ++ [(name, fid)]) :
    t'.names d n = t.names d n + if fid.vnode = n then 1 else 0 := by
  unfold names
  rw [children, countP_append, countP_singleton]
  congr 1
  simp only [decide_eq_true_eq]

theorem children_filter (dir : t'.IsDir d ↔ t.IsDir d)
    (entries : (t'.node d).entries = (t.node d).entries.filter fun e => e.1 ≠ name) :
    t'.children d = (t.children d).filter fun e => e.1 ≠ name := by
  unfold children
  simp only [dir, entries]
  split
  · rw [filter_filter, filter_filter]
    simp only [Bool.and_comm]
  · rfl

variable {l : List (Name × Fid)}

theorem countP_filter_key {q : Name × Fid → Bool} (keys : (l.map Prod.fst).Nodup) (inside : (name, fid) ∈ l) :
    l.countP q = (l.filter fun e => e.1 ≠ name).countP q + if q (name, fid) then 1 else 0 := by
  induction l with
  | nil => cases inside
  | cons e l ih =>
    rw [map_cons, nodup_cons] at keys
    rcases List.mem_cons.mp inside with rfl | later
    · have rest : (l.filter fun e => e.1 ≠ name) = l := by
        rw [filter_eq_self]
        intro e' inTail
        simp only [ne_eq, decide_not, Bool.not_eq_eq_eq_not, Bool.not_true, decide_eq_false_iff_not]
        intro same
        have key := mem_map_of_mem (f := Prod.fst) inTail
        rw [same] at key
        exact keys.1 key
      rw [filter_cons_of_neg (by simp), rest, countP_cons]
    · have other : e.1 ≠ name := by
        intro same
        rw [same] at keys
        exact keys.1 (mem_map_of_mem later)
      rw [filter_cons_of_pos (by simpa using other), countP_cons, countP_cons, ih keys.2 later]
      omega

theorem names_filter (keys : ((t.node d).entries.map Prod.fst).Nodup) (inside : (name, fid) ∈ t.children d)
    (children : t'.children d = (t.children d).filter fun e => e.1 ≠ name) :
    t.names d n = t'.names d n + if fid.vnode = n then 1 else 0 := by
  have childKeys : ((t.children d).map Prod.fst).Nodup := by
    refine keys.sublist ?_
    unfold Tree.children
    split
    · exact List.filter_sublist.map Prod.fst
    · exact nil_sublist _
  unfold names
  rw [children, countP_filter_key childKeys inside]
  simp only [decide_eq_true_eq]

theorem names_congr (children : t'.children d = t.children d) : t'.names d n = t.names d n := by
  unfold names
  rw [children]

structure SameVnodes (t t' : Tree) : Prop where
  used : t'.used = t.used
  type : ∀ m, (t'.node m).type = (t.node m).type
  unique : ∀ m, (t'.node m).unique = (t.node m).unique
  parent : ∀ m, (t'.node m).parent = (t.node m).parent

theorem SameVnodes.isDir (same : SameVnodes t t') (m : Nat) : t'.IsDir m ↔ t.IsDir m :=
  isDir_congr (by rw [same.used]) (same.type m)

theorem SameVnodes.subdirs (same : SameVnodes t t') (m : Nat) : t'.subdirs transit m = t.subdirs transit m := by
  unfold Tree.subdirs
  rw [same.used]
  exact Finset.filter_congr fun k _ => by rw [same.type, same.parent]

theorem key_filter {key : Name} (other : key ≠ name) (inside : key ∈ l.map Prod.fst) :
    key ∈ (l.filter fun e => e.1 ≠ name).map Prod.fst := by
  obtain ⟨e, there, same⟩ := List.mem_map.mp inside
  refine List.mem_map.mpr ⟨e, List.mem_filter.mpr ⟨there, ?_⟩, same⟩
  rw [same]
  exact decide_eq_true other

theorem subdirs_some (t : Tree) (n d : Nat) : t.subdirs (some n) d = (t.subdirs none d).erase n := by
  ext m
  simp only [subdirs, Finset.mem_filter, Finset.mem_erase]
  grind

theorem card_subdirs_some (t : Tree) (n d : Nat) : (t.subdirs none d).card =
      (t.subdirs (some n) d).card + if n ∈ t.used ∧ (t.node n).type = .directory ∧ (t.node n).parent = d then 1 else 0 := by
  rw [subdirs_some, Finset.card_erase_eq_ite]
  have member : n ∈ t.subdirs none d ↔ n ∈ t.used ∧ (t.node n).type = .directory ∧ (t.node n).parent = d := by
    simp [subdirs]
  split
  · rename_i inside
    rw [if_pos (member.mp inside)]
    have some := Finset.card_pos.mpr ⟨n, inside⟩
    omega
  · rename_i outside
    rw [if_neg (mt member.mpr outside)]
    rfl

theorem ConsistentBut.detach (cons : t.Consistent) (inside : (name, fid) ∈ t.children d) (apart : fid.vnode ≠ d)
    (same : SameVnodes t t') (others : ∀ m, m ≠ d → t'.node m = t.node m)
    (entries : (t'.node d).entries = (t.node d).entries.filter fun e => e.1 ≠ name)
    (linkCount : (t'.node d).linkCount = (t.node d).linkCount - if (t.node fid.vnode).type = .directory then 1 else 0) :
    t'.ConsistentBut (some fid.vnode) := by
  obtain ⟨used, unique, parent⟩ := cons.child d _ inside
  have dir := (mem_children.mp inside).1
  have plain := (mem_children.mp inside).2.2
  have children : t'.children d = (t.children d).filter fun e => e.1 ≠ name := children_filter (same.isDir d) entries
  have childrenOther {m : Nat} (other : m ≠ d) : t'.children m = t.children m :=
    children_congr (same.isDir m) (by rw [others m other])
  have namesOther {m k : Nat} (other : m ≠ d) : t'.names m k = t.names m k := names_congr (childrenOther other)
  have namesAt (k : Nat) := names_filter (n := k) (cons.keys d dir) inside children
  have nonroot : fid.vnode ≠ 1 := by
    intro root
    rw [root] at parent
    exact cons.zero (by rw [← cons.root.2.1, parent]; exact dir.1)
  exact
    { zero := by rw [same.used]; exact cons.zero
      root := ⟨(same.isDir 1).mpr cons.root.1, (same.parent 1).trans cons.root.2.1, by simpa using nonroot⟩
      keys := fun m isDir => by
        by_cases here : m = d
        · rw [here, entries]
          exact (cons.keys d dir).sublist (List.filter_sublist.map Prod.fst)
        · rw [others m here]
          exact cons.keys m ((same.isDir m).mp isDir)
      dots := fun m isDir => by
        by_cases here : m = d
        · rw [here, entries]
          have both := cons.dots d dir
          exact ⟨key_filter (fun same => plain (.inl same.symm)) both.1, key_filter (fun same => plain (.inr same.symm)) both.2⟩
        · rw [others m here]
          exact cons.dots m ((same.isDir m).mp isDir)
      up := fun m isDir notRoot stays => by
        obtain ⟨unique, kept⟩ := cons.up m ((same.isDir m).mp isDir) notRoot (by simp)
        refine ⟨unique, ?_⟩
        rw [same.parent]
        by_cases here : m = d
        · rw [here] at kept ⊢
          rw [entries]
          exact List.mem_filter.mpr ⟨kept, decide_eq_true fun same => plain (.inr same.symm)⟩
        · rw [others m here]
          exact kept
      child := fun m e inM => by
        rw [same.used, same.unique, same.parent]
        by_cases here : m = d
        · rw [here, children] at inM
          rw [here]
          exact cons.child d e (List.mem_filter.mp inM).1
        · rw [childrenOther here] at inM
          exact cons.child m e inM
      home := fun m inUse notRoot stays => by
        rw [same.parent, same.isDir]
        exact cons.home m (same.used ▸ inUse) notRoot (by simp)
      directory := fun m isDir notRoot => by
        have before := cons.directory m ((same.isDir m).mp isDir) notRoot
        rw [if_neg (by simp)] at before
        rw [same.parent]
        by_cases here : (t.node m).parent = d
        · have removed := namesAt m
          rw [← here] at removed
          simp only [Option.some_inj]
          split <;> split at removed <;> omega
        · have other : fid.vnode ≠ m := by rintro rfl; exact here parent
          rw [namesOther here, before, if_neg (by simpa using other)]
      file := fun m inUse notDir => by
        rw [same.used] at inUse
        rw [same.type] at notDir
        have before := cons.file m inUse notDir
        have notD : m ≠ d := by rintro rfl; exact notDir dir.2
        rw [if_neg (by simp), Int.add_zero] at before
        rw [same.parent, others m notD, before]
        by_cases here : (t.node m).parent = d
        · have removed := namesAt m
          rw [← here] at removed
          simp only [Option.some_inj]
          rw [removed]
          split <;> rfl
        · have other : fid.vnode ≠ m := by rintro rfl; exact here parent
          rw [namesOther here, if_neg (by simpa using other), Int.add_zero]
      named := fun m inUse notDir stays => by
        rw [same.used] at inUse
        rw [same.type] at notDir
        have before := cons.named m inUse notDir (by simp)
        have other : fid.vnode ≠ m := by simpa using stays
        rw [same.parent]
        by_cases here : (t.node m).parent = d
        · have removed := namesAt m
          rw [← here, if_neg other] at removed
          rwa [removed] at before
        · rwa [namesOther here]
      subdirectories := fun m isDir => by
        have before := cons.subdirectories m ((same.isDir m).mp isDir)
        have counted := card_subdirs_some t fid.vnode m
        rw [same.subdirs]
        by_cases here : m = d
        · rw [here] at before counted ⊢
          rw [linkCount, before, counted]
          simp only [used, parent, true_and, and_true]
          split <;> push_cast <;> omega
        · rw [others m here, before, counted, if_neg (by rintro ⟨-, -, same⟩; exact here (same.symm.trans parent))]
          rfl }

def retarget (entries : List (Name × Fid)) (fid : Fid) : List (Name × Fid) :=
  (entries.filter fun e => e.1 ≠ dotdot) ++ [(dotdot, fid)]

theorem children_retarget (dir : t'.IsDir d ↔ t.IsDir d) (entries : (t'.node d).entries = retarget (t.node d).entries fid) :
    t'.children d = t.children d := by
  unfold children retarget at *
  simp only [dir, entries]
  split
  · rw [filter_append, filter_filter, filter_cons_of_neg (by simp [Dots]), filter_nil, append_nil]
    refine filter_congr fun e _ => ?_
    simp only [Dots]
    grind
  · rfl

theorem keys_retarget {entries : List (Name × Fid)} (keys : (entries.map Prod.fst).Nodup) :
    ((retarget entries fid).map Prod.fst).Nodup := by
  unfold retarget
  rw [map_append, nodup_append]
  refine ⟨keys.sublist (List.filter_sublist.map Prod.fst), nodup_singleton _, ?_⟩
  intro key inside key' single
  obtain ⟨e, kept, same⟩ := List.mem_map.mp inside
  obtain rfl := List.mem_singleton.mp single
  rw [← same]
  exact of_decide_eq_true (List.mem_filter.mp kept).2

theorem ConsistentBut.attach (cons : t.ConsistentBut (some n)) (inUse : n ∈ t.used) (dir : t.IsDir w) (apart : n ≠ w)
    (fresh : name ∉ (t.node w).entries.map Prod.fst) (free : (t.node n).parent = w ∨ ∀ d, t.names d n = 0)
    (used : t'.used = t.used) (others : ∀ m, m ≠ n → m ≠ w → t'.node m = t.node m)
    (atN : t'.node n = { t.node n with parent := w, entries := l })
    (up : (t.node n).type = .directory → ∃ unique, l = retarget (t.node n).entries ⟨w, unique⟩)
    (atW : t'.node w = { t.node w with
      entries := (t.node w).entries ++ [(name, ⟨n, (t.node n).unique⟩)]
      linkCount := (t.node w).linkCount + if (t.node n).type = .directory then 1 else 0 }) :
    t'.Consistent := by
  have type (m : Nat) : (t'.node m).type = (t.node m).type := by
    by_cases isN : m = n
    · rw [isN, atN]
    · by_cases isW : m = w
      · rw [isW, atW]
      · rw [others m isN isW]
  have unique (m : Nat) : (t'.node m).unique = (t.node m).unique := by
    by_cases isN : m = n
    · rw [isN, atN]
    · by_cases isW : m = w
      · rw [isW, atW]
      · rw [others m isN isW]
  have parent (m : Nat) (other : m ≠ n) : (t'.node m).parent = (t.node m).parent := by
    by_cases isW : m = w
    · rw [isW, atW]
    · rw [others m other isW]
  have parentN : (t'.node n).parent = w := by rw [atN]
  have isDir (m : Nat) : t'.IsDir m ↔ t.IsDir m := isDir_congr (by rw [used]) (type m)
  have nonroot : n ≠ 1 := by simpa using cons.root.2.2
  have plain : ¬ Dots name := by
    rintro (rfl | rfl)
    · exact fresh (cons.dots w dir).1
    · exact fresh (cons.dots w dir).2
  have childrenW : t'.children w = t.children w ++ [(name, ⟨n, (t.node n).unique⟩)] :=
    children_append dir ((isDir w).mpr dir) plain (by rw [atW])
  have childrenOther {m : Nat} (other : m ≠ w) : t'.children m = t.children m := by
    by_cases isN : m = n
    · by_cases directory : (t.node n).type = .directory
      · obtain ⟨unique, retargeted⟩ := up directory
        rw [isN]
        exact children_retarget (isDir n) (by rw [atN]; exact retargeted)
      · have notDir : ¬ t.IsDir m := by rw [isN]; exact fun isDir => directory isDir.2
        unfold Tree.children
        rw [if_neg notDir, if_neg (mt (isDir m).mp notDir)]
    · exact children_congr (isDir m) (by rw [others m isN other])
  have namesW (k : Nat) : t'.names w k = t.names w k + if n = k then 1 else 0 := names_append childrenW
  have namesOther {m k : Nat} (other : m ≠ w) : t'.names m k = t.names m k := names_congr (childrenOther other)
  exact
    { zero := by rw [used]; exact cons.zero
      root := ⟨(isDir 1).mpr cons.root.1, (parent 1 nonroot.symm).trans cons.root.2.1, by simp⟩
      keys := fun m dirM => by
        have keys := cons.keys m ((isDir m).mp dirM)
        by_cases isN : m = n
        · subst isN
          obtain ⟨unique, retargeted⟩ := up ((type m).symm.trans dirM.2)
          rw [atN]
          rw [retargeted]
          exact keys_retarget keys
        by_cases isW : m = w
        · subst isW
          rw [atW, map_append, nodup_append]
          refine ⟨keys, nodup_singleton _, fun key old key' new => ?_⟩
          obtain rfl := List.mem_singleton.mp new
          rintro rfl
          exact fresh old
        · rw [others m isN isW]
          exact keys
      dots := fun m dirM => by
        have dots := cons.dots m ((isDir m).mp dirM)
        by_cases isN : m = n
        · subst isN
          obtain ⟨unique, retargeted⟩ := up ((type m).symm.trans dirM.2)
          rw [atN]
          rw [retargeted, retarget, map_append]
          exact ⟨mem_append_left _ (key_filter (by decide) dots.1), mem_append_right _ (List.mem_singleton.mpr rfl)⟩
        by_cases isW : m = w
        · subst isW
          rw [atW, map_append]
          exact ⟨mem_append_left _ dots.1, mem_append_left _ dots.2⟩
        · rw [others m isN isW]
          exact dots
      up := fun m dirM notRoot stays => by
        by_cases isN : m = n
        · subst isN
          obtain ⟨unique, retargeted⟩ := up ((type m).symm.trans dirM.2)
          refine ⟨unique, ?_⟩
          rw [atN]
          rw [retargeted]
          exact mem_append_right _ (List.mem_singleton.mpr rfl)
        obtain ⟨unique, kept⟩ := cons.up m ((isDir m).mp dirM) notRoot (by simpa using Ne.symm isN)
        refine ⟨unique, ?_⟩
        by_cases isW : m = w
        · subst isW
          rw [atW]
          exact mem_append_left _ kept
        · rw [others m isN isW]
          exact kept
      child := fun m e inM => by
        rw [used, unique]
        by_cases isW : m = w
        · rw [isW, childrenW] at inM
          rcases List.mem_append.mp inM with old | new
          · obtain ⟨inUse', same, home⟩ := cons.child w e old
            refine ⟨inUse', same, ?_⟩
            by_cases isN : e.2.vnode = n
            · rw [isN, parentN, isW]
            · rw [parent _ isN, home, isW]
          · rw [List.mem_singleton.mp new]
            exact ⟨inUse, rfl, parentN.trans isW.symm⟩
        rw [childrenOther isW] at inM
        obtain ⟨inUse', same, home⟩ := cons.child m e inM
        refine ⟨inUse', same, ?_⟩
        have notN : e.2.vnode ≠ n := by
          intro isN
          rcases free with here | unnamed
          · rw [isN] at home
            exact isW (home.symm.trans here)
          · exact names_ne_zero.mpr ⟨e, inM, isN⟩ (unnamed m)
        rw [parent _ notN, home]
      home := fun m inUse' notRoot stays => by
        by_cases isN : m = n
        · rw [isN, parentN]
          exact (isDir w).mpr dir
        · rw [parent m isN, isDir]
          exact cons.home m (used ▸ inUse') notRoot (by simpa using Ne.symm isN)
      directory := fun m dirM notRoot => by
        have before := cons.directory m ((isDir m).mp dirM) notRoot
        rw [if_neg (by simp)]
        by_cases isN : m = n
        · subst isN
          rw [if_pos rfl] at before
          have unnamed : t.names w m = 0 := by
            by_cases here : (t.node m).parent = w
            · rw [← here]
              exact before
            · exact cons.names_eq_zero here
          rw [parentN, namesW, unnamed, if_pos rfl]
        · rw [if_neg (by simpa using Ne.symm isN)] at before
          rw [parent m isN]
          by_cases here : (t.node m).parent = w
          · rw [here] at before ⊢
            rw [namesW, if_neg (Ne.symm isN), before]
          · rw [namesOther here, before]
      file := fun m inUse' notDir => by
        rw [type] at notDir
        have before := cons.file m (used ▸ inUse') notDir
        rw [if_neg (by simp), Int.add_zero]
        by_cases isN : m = n
        · subst isN
          rw [if_pos rfl] at before
          have count : t.names (t.node m).parent m = t.names w m := by
            rcases free with here | unnamed
            · rw [here]
            · rw [unnamed, unnamed]
          rw [parentN, namesW, if_pos rfl, atN]
          rw [before, count]
          rfl
        · have notW : m ≠ w := by rintro rfl; exact notDir dir.2
          rw [if_neg (by simpa using Ne.symm isN), Int.add_zero] at before
          rw [parent m isN, others m isN notW, before]
          by_cases here : (t.node m).parent = w
          · rw [here, namesW, if_neg (Ne.symm isN)]
            rfl
          · rw [namesOther here]
      named := fun m inUse' notDir stays => by
        rw [type] at notDir
        by_cases isN : m = n
        · subst isN
          rw [parentN, namesW, if_pos rfl]
          exact Nat.succ_ne_zero _
        have before := cons.named m (used ▸ inUse') notDir (by simpa using Ne.symm isN)
        rw [parent m isN]
        by_cases here : (t.node m).parent = w
        · rw [here] at before ⊢
          rw [namesW]
          omega
        · rwa [namesOther here]
      subdirectories := fun m dirM => by
        have before := cons.subdirectories m ((isDir m).mp dirM)
        have counted := card_subdirs_some t' n m
        have rest : t'.subdirs (some n) m = t.subdirs (some n) m := by
          unfold Tree.subdirs
          rw [used]
          refine Finset.filter_congr fun k _ => ?_
          rw [type]
          by_cases isN : k = n
          · simp [isN]
          · rw [parent k isN]
        rw [counted, rest, used, type, parentN]
        simp only [inUse, true_and]
        by_cases isW : m = w
        · subst isW
          split
          · simp_all
            omega
          · simp_all
        rw [if_neg (fun both => isW both.2.symm)]
        by_cases isN : m = n
        · subst isN
          rw [atN]
          rw [before]
          rfl
        · rw [others m isN isW, before]
          rfl }

theorem ConsistentBut.relink {transit' : Option Nat} (cons : t.ConsistentBut transit) (inUse : n ∈ t.used)
    (file : (t.node n).type ≠ .directory) (before : ∀ k, transit = some k → k = n) (after : ∀ k, transit' = some k → k = n)
    (used : t'.used = t.used) (others : ∀ m, m ≠ n → t'.node m = t.node m) {links : Int}
    (atN : t'.node n = { t.node n with linkCount := links })
    (counted : links = t.names (t.node n).parent n + if transit' = some n then 1 else 0)
    (named : transit' ≠ some n → t.names (t.node n).parent n ≠ 0) : t'.ConsistentBut transit' := by
  have same : SameVnodes t t' :=
    { used
      type := fun m => by by_cases isN : m = n <;> simp [isN, atN, others]
      unique := fun m => by by_cases isN : m = n <;> simp [isN, atN, others]
      parent := fun m => by by_cases isN : m = n <;> simp [isN, atN, others] }
  have entries (m : Nat) : (t'.node m).entries = (t.node m).entries := by
    by_cases isN : m = n <;> simp [isN, atN, others]
  have children (m : Nat) : t'.children m = t.children m := children_congr (same.isDir m) (entries m)
  have names (m k : Nat) : t'.names m k = t.names m k := names_congr (children m)
  have away {k : Nat} (other : k ≠ n) : transit ≠ some k ∧ transit' ≠ some k :=
    ⟨fun here => other (before k here), fun here => other (after k here)⟩
  have notN {m : Nat} (dir : t'.IsDir m) : m ≠ n := by
    rintro rfl
    exact file ((same.type m).symm.trans dir.2)
  exact
    { zero := by rw [used]; exact cons.zero
      root := ⟨(same.isDir 1).mpr cons.root.1, (same.parent 1).trans cons.root.2.1,
        (away (notN ((same.isDir 1).mpr cons.root.1))).2⟩
      keys := fun m dir => by rw [entries]; exact cons.keys m ((same.isDir m).mp dir)
      dots := fun m dir => by rw [entries]; exact cons.dots m ((same.isDir m).mp dir)
      up := fun m dir notRoot stays => by
        rw [entries, same.parent]
        exact cons.up m ((same.isDir m).mp dir) notRoot (away (notN dir)).1
      child := fun m e inM => by
        rw [children] at inM
        rw [used, same.unique, same.parent]
        exact cons.child m e inM
      home := fun m inUse' notRoot stays => by
        rw [same.parent, same.isDir]
        by_cases isN : m = n
        · have some := named (isN ▸ stays)
          obtain ⟨e, inside, -⟩ := names_ne_zero.mp some
          rw [isN]
          exact (mem_children.mp inside).1
        · exact cons.home m (used ▸ inUse') notRoot (away isN).1
      directory := fun m dir notRoot => by
        rw [same.parent, names, cons.directory m ((same.isDir m).mp dir) notRoot, if_neg (away (notN dir)).1,
          if_neg (away (notN dir)).2]
      file := fun m inUse' notDir => by
        rw [same.parent, names]
        by_cases isN : m = n
        · subst isN
          rw [atN]
          exact counted
        · rw [others m isN, if_neg (away isN).2, cons.file m (used ▸ inUse') (by rwa [same.type] at notDir), if_neg (away isN).1]
      named := fun m inUse' notDir stays => by
        rw [same.parent, names]
        by_cases isN : m = n
        · subst isN
          exact named stays
        · exact cons.named m (used ▸ inUse') (by rwa [same.type] at notDir) (away isN).1
      subdirectories := fun m dir => by
        have isOther := notN dir
        rw [others m isOther, cons.subdirectories m ((same.isDir m).mp dir), same.subdirs]
        congr 3
        refine Finset.filter_congr fun k _ => ?_
        by_cases isN : k = n
        · simp [isN, file]
        · simp [(away isN).1, (away isN).2] }

theorem ConsistentBut.alloc (cons : t.Consistent) (unused : n ∉ t.used) (nonzero : n ≠ 0) (used : t'.used = insert n t.used)
    (others : ∀ m, m ≠ n → t'.node m = t.node m)
    (file : (t'.node n).type ≠ .directory → (t'.node n).linkCount = 1)
    (directory : (t'.node n).type = .directory →
      (t'.node n).linkCount = 2 ∧ ∃ self above, (t'.node n).entries = [(dot, self), (dotdot, above)]) :
    t'.ConsistentBut (some n) := by
  have notN {m : Nat} (inUse : m ∈ t.used) : m ≠ n := by rintro rfl; exact unused inUse
  have isDir {m : Nat} (other : m ≠ n) : t'.IsDir m ↔ t.IsDir m :=
    isDir_congr (by simp [used, other]) (by rw [others m other])
  have children {m : Nat} (other : m ≠ n) : t'.children m = t.children m :=
    children_congr (isDir other) (by rw [others m other])
  have childrenN : t'.children n = [] := by
    unfold Tree.children
    split
    · rename_i dir
      obtain ⟨-, self, above, entries⟩ := directory dir.2
      rw [entries]
      simp [Dots]
    · rfl
  have names {m k : Nat} (other : m ≠ n) : t'.names m k = t.names m k := names_congr (children other)
  have unnamed (m : Nat) : t'.names m n = 0 := by
    by_contra some
    obtain ⟨e, inside, isN⟩ := names_ne_zero.mp some
    by_cases atN : m = n
    · rw [atN, childrenN] at inside
      cases inside
    · rw [children atN] at inside
      exact notN (cons.child m e inside).1 isN
  have parentUsed {k : Nat} (inUse : k ∈ t.used) : (t.node k).parent ≠ n := by
    by_cases isRoot : k = 1
    · rw [isRoot, cons.root.2.1]
      exact nonzero.symm
    · exact notN (cons.home k inUse isRoot (by simp)).1
  have inOld {m : Nat} (inUse : m ∈ t'.used) (other : m ≠ n) : m ∈ t.used := by
    rw [used] at inUse
    exact (Finset.mem_insert.mp inUse).resolve_left other
  exact
    { zero := by
        rw [used, Finset.mem_insert]
        exact fun inside => inside.elim nonzero.symm cons.zero
      root := by
        have notRoot := notN cons.root.1.1
        exact ⟨(isDir notRoot).mpr cons.root.1, by rw [others 1 notRoot]; exact cons.root.2.1, by simpa using notRoot.symm⟩
      keys := fun m dir => by
        by_cases isN : m = n
        · subst isN
          obtain ⟨-, self, above, entries⟩ := directory dir.2
          rw [entries]
          exact (by decide : [dot, dotdot].Nodup)
        · rw [others m isN]
          exact cons.keys m ((isDir isN).mp dir)
      dots := fun m dir => by
        by_cases isN : m = n
        · subst isN
          obtain ⟨-, self, above, entries⟩ := directory dir.2
          rw [entries]
          exact (by decide : dot ∈ [dot, dotdot] ∧ dotdot ∈ [dot, dotdot])
        · rw [others m isN]
          exact cons.dots m ((isDir isN).mp dir)
      up := fun m dir notRoot stays => by
        have isN : m ≠ n := by simpa using Ne.symm stays
        rw [others m isN]
        exact cons.up m ((isDir isN).mp dir) notRoot (by simp)
      child := fun m e inM => by
        by_cases isN : m = n
        · rw [isN, childrenN] at inM
          cases inM
        rw [children isN] at inM
        have before := cons.child m e inM
        rw [used, others _ (notN before.1)]
        exact ⟨Finset.mem_insert_of_mem before.1, before.2⟩
      home := fun m inUse notRoot stays => by
        have isN : m ≠ n := by simpa using Ne.symm stays
        have inUse := inOld inUse isN
        rw [others m isN]
        exact (isDir (parentUsed inUse)).mpr (cons.home m inUse notRoot (by simp))
      directory := fun m dir notRoot => by
        by_cases isN : m = n
        · rw [isN, unnamed, if_pos rfl]
        · have before := (isDir isN).mp dir
          rw [if_neg (by simpa using Ne.symm isN), others m isN, names (parentUsed before.1),
            cons.directory m before notRoot, if_neg (by simp)]
      file := fun m inUse notDir => by
        by_cases isN : m = n
        · subst isN
          rw [file notDir, unnamed, if_pos rfl]
          rfl
        · have before := inOld inUse isN
          rw [others m isN] at notDir ⊢
          rw [cons.file m before notDir, if_neg (by simp), if_neg (by simpa using Ne.symm isN), names (parentUsed before)]
      named := fun m inUse notDir stays => by
        have isN : m ≠ n := by simpa using Ne.symm stays
        have before := inOld inUse isN
        rw [others m isN] at notDir ⊢
        rw [names (parentUsed before)]
        exact cons.named m before notDir (by simp)
      subdirectories := fun m dir => by
        have rest : t'.subdirs (some n) m = t.subdirs none m := by
          unfold Tree.subdirs
          ext k
          rw [Finset.mem_filter, Finset.mem_filter, used, Finset.mem_insert]
          by_cases isN : k = n
          · simp [isN, unused]
          · rw [others k isN]
            simp [isN, Ne.symm isN]
        rw [rest]
        by_cases isN : m = n
        · subst isN
          have none : t.subdirs none m = ∅ := by
            unfold Tree.subdirs
            rw [Finset.filter_eq_empty_iff]
            exact fun k inUse both => parentUsed inUse both.2.1
          rw [(directory dir.2).1, none]
          rfl
        · rw [others m isN]
          exact cons.subdirectories m ((isDir isN).mp dir) }

theorem ConsistentBut.free (cons : t.ConsistentBut (some n)) (inUse : n ∈ t.used) (used : t'.used = t.used.erase n)
    (others : ∀ m, m ≠ n → t'.node m = t.node m)
    (file : (t.node n).type ≠ .directory → t.names (t.node n).parent n = 0)
    (directory : (t.node n).type = .directory → t.children n = []) : t'.Consistent := by
  have nonroot : n ≠ 1 := by simpa using cons.root.2.2
  have isDir {m : Nat} (other : m ≠ n) : t'.IsDir m ↔ t.IsDir m :=
    isDir_congr (by simp [used, other]) (by rw [others m other])
  have notN {m : Nat} (still : m ∈ t'.used) : m ≠ n := by
    rintro rfl
    rw [used] at still
    exact Finset.notMem_erase m t.used still
  have inOld {m : Nat} (still : m ∈ t'.used) : m ∈ t.used := by
    rw [used] at still
    exact Finset.mem_of_mem_erase still
  have away {m : Nat} (other : m ≠ n) : some n ≠ some m := by simpa using other.symm
  have children {m : Nat} (other : m ≠ n) : t'.children m = t.children m :=
    children_congr (isDir other) (by rw [others m other])
  have names {m k : Nat} (other : m ≠ n) : t'.names m k = t.names m k := names_congr (children other)
  have childless : t.children n = [] := by
    by_cases dir : (t.node n).type = .directory
    · exact directory dir
    · exact if_neg fun isDir => dir isDir.2
  have unnamed (d : Nat) : t.names d n = 0 := by
    by_cases here : (t.node n).parent = d
    · rw [← here]
      by_cases dir : (t.node n).type = .directory
      · rw [cons.directory n ⟨inUse, dir⟩ nonroot, if_pos rfl]
      · exact file dir
    · exact cons.names_eq_zero here
  have parentKept {k : Nat} (inUse : k ∈ t.used) (other : k ≠ n) : (t.node k).parent ≠ n := by
    by_cases isRoot : k = 1
    · rw [isRoot, cons.root.2.1]
      rintro rfl
      exact cons.zero ‹_›
    intro above
    have some : t.names (t.node k).parent k ≠ 0 := by
      by_cases dir : (t.node k).type = .directory
      · rw [cons.directory k ⟨inUse, dir⟩ isRoot, if_neg (away other)]
        exact one_ne_zero
      · exact cons.named k inUse dir (away other)
    obtain ⟨e, inside, -⟩ := names_ne_zero.mp some
    rw [above, childless] at inside
    cases inside
  exact
    { zero := by
        rw [used]
        exact fun inside => cons.zero (Finset.mem_of_mem_erase inside)
      root := ⟨(isDir nonroot.symm).mpr cons.root.1, by rw [others 1 nonroot.symm]; exact cons.root.2.1, by simp⟩
      keys := fun m dir => by
        rw [others m (notN dir.1)]
        exact cons.keys m ((isDir (notN dir.1)).mp dir)
      dots := fun m dir => by
        rw [others m (notN dir.1)]
        exact cons.dots m ((isDir (notN dir.1)).mp dir)
      up := fun m dir notRoot stays => by
        have isN := notN dir.1
        rw [others m isN]
        exact cons.up m ((isDir isN).mp dir) notRoot (away isN)
      child := fun m e inM => by
        have isN := notN (mem_children.mp inM).1.1
        rw [children isN] at inM
        have before := cons.child m e inM
        have named : e.2.vnode ≠ n := fun here => names_ne_zero.mpr ⟨e, inM, here⟩ (unnamed m)
        rw [used, others _ named]
        exact ⟨Finset.mem_erase_of_ne_of_mem named before.1, before.2⟩
      home := fun m still notRoot stays => by
        have isN := notN still
        rw [others m isN]
        exact (isDir (parentKept (inOld still) isN)).mpr (cons.home m (inOld still) notRoot (away isN))
      directory := fun m dir notRoot => by
        have isN := notN dir.1
        rw [others m isN, names (parentKept (inOld dir.1) isN), cons.directory m ((isDir isN).mp dir) notRoot,
          if_neg (away isN), if_neg (by simp)]
      file := fun m still notDir => by
        have isN := notN still
        rw [others m isN] at notDir ⊢
        rw [names (parentKept (inOld still) isN), cons.file m (inOld still) notDir, if_neg (away isN), if_neg (by simp)]
      named := fun m still notDir stays => by
        have isN := notN still
        rw [others m isN] at notDir ⊢
        rw [names (parentKept (inOld still) isN)]
        exact cons.named m (inOld still) notDir (away isN)
      subdirectories := fun m dir => by
        have isN := notN dir.1
        rw [others m isN, cons.subdirectories m ((isDir isN).mp dir)]
        congr 3
        unfold Tree.subdirs
        ext k
        rw [Finset.mem_filter, Finset.mem_filter, used, Finset.mem_erase]
        by_cases freed : k = n
        · simp [freed]
        · rw [others k freed]
          simp [freed, Ne.symm freed] }

theorem ConsistentBut.forget (cons : t.Consistent) (unused : n ∉ t.used) (nonzero : n ≠ 0) (used : t'.used = t.used)
    (others : ∀ m, m ≠ n → t'.node m = t.node m) : t'.Consistent := by
  let middle : Tree := ⟨insert n t.used, update t.node n { type := .file, unique := 0, linkCount := 1 }⟩
  have apart {m : Nat} (other : m ≠ n) : middle.node m = t.node m := update_of_ne other _ _
  have atN : middle.node n = { type := .file, unique := 0, linkCount := 1 } := update_self _ _ _
  have moved : middle.ConsistentBut (some n) :=
    cons.alloc unused nonzero rfl (fun m other => apart other) (by simp [atN]) (by simp [atN])
  refine moved.free (Finset.mem_insert_self n _) ?_ (fun m other => (others m other).trans (apart other).symm) ?_ ?_
  · rw [used]
    exact (Finset.erase_insert unused).symm
  · intro notDir
    have count := moved.file n (Finset.mem_insert_self n _) notDir
    grind
  · simp [atN]

variable (cons : t.Consistent)
include cons

theorem ConsistentBut.add (unused : n ∉ t.used) (nonzero : n ≠ 0) (dir : t.IsDir d)
    (fresh : name ∉ (t.node d).entries.map Prod.fst) (used : t'.used = insert n t.used)
    (others : ∀ m, m ≠ n → m ≠ d → t'.node m = t.node m) (parent : (t'.node n).parent = d)
    (atD : t'.node d = { t.node d with
      entries := (t.node d).entries ++ [(name, ⟨n, (t'.node n).unique⟩)]
      linkCount := (t.node d).linkCount + if (t'.node n).type = .directory then 1 else 0 })
    (file : (t'.node n).type ≠ .directory → (t'.node n).linkCount = 1)
    (directory : (t'.node n).type = .directory →
      (t'.node n).linkCount = 2 ∧ ∃ self unique, (t'.node n).entries = [(dot, self), (dotdot, ⟨d, unique⟩)]) :
    t'.Consistent := by
  have apart : n ≠ d := by rintro rfl; exact unused dir.1
  let middle : Tree := ⟨insert n t.used, update t.node n (t'.node n)⟩
  have atN : middle.node n = t'.node n := update_self _ _ _
  have rest {m : Nat} (other : m ≠ n) : middle.node m = t.node m := update_of_ne other _ _
  have allocated : middle.ConsistentBut (some n) := by
    refine cons.alloc unused nonzero rfl (fun m other => rest other) (by rwa [atN]) ?_
    rw [atN]
    intro isDir
    obtain ⟨links, self, unique, entries⟩ := directory isDir
    exact ⟨links, self, _, entries⟩
  refine allocated.attach (w := d) (l := (t'.node n).entries) (Finset.mem_insert_self _ _) ?_ apart
    (by rwa [rest apart.symm]) (.inl (by rw [atN, parent])) used ?_ ?_ ?_ ?_
  · exact ⟨Finset.mem_insert_of_mem dir.1, by rw [rest apart.symm]; exact dir.2⟩
  · exact fun m isN isW => (others m isN isW).trans (rest isN).symm
  · rw [atN, ← parent]
  · rw [atN]
    intro isDir
    obtain ⟨-, self, unique, entries⟩ := directory isDir
    exact ⟨unique, by rw [entries]; rfl⟩
  · rw [atN, rest apart.symm]
    exact atD

theorem ConsistentBut.add_link (inUse : n ∈ t.used) (file : (t.node n).type ≠ .directory)
    (parent : (t.node n).parent = d) (dir : t.IsDir d) (fresh : name ∉ (t.node d).entries.map Prod.fst)
    (used : t'.used = t.used) (others : ∀ m, m ≠ n → m ≠ d → t'.node m = t.node m)
    (atN : t'.node n = { t.node n with linkCount := (t.node n).linkCount + 1 })
    (atD : t'.node d = { t.node d with entries := (t.node d).entries ++ [(name, ⟨n, (t.node n).unique⟩)] }) :
    t'.Consistent := by
  have apart : n ≠ d := by rintro rfl; exact file dir.2
  let middle : Tree := ⟨t.used, update t.node n { t.node n with linkCount := (t.node n).linkCount + 1 }⟩
  have here : middle.node n = { t.node n with linkCount := (t.node n).linkCount + 1 } := update_self _ _ _
  have rest {m : Nat} (other : m ≠ n) : middle.node m = t.node m := update_of_ne other _ _
  have counted := cons.file n inUse file
  rw [if_neg (by simp), Int.add_zero] at counted
  have lent : middle.ConsistentBut (some n) := by
    refine cons.relink inUse file (by simp) (by simp) rfl (fun m other => rest other) here ?_ (by simp)
    rw [if_pos rfl, counted]
  refine lent.attach (w := d) (l := (t.node n).entries) inUse ?_ apart (by rwa [rest apart.symm])
    (.inl (by rw [here]; exact parent)) used ?_ ?_ ?_ ?_
  · exact ⟨dir.1, by rw [rest apart.symm]; exact dir.2⟩
  · exact fun m isN isW => (others m isN isW).trans (rest isN).symm
  · rw [here, atN, ← parent]
  · rw [here]
    exact fun isDir => absurd isDir file
  · rw [here, rest apart.symm, atD, if_neg file, Int.add_zero]

theorem ConsistentBut.remove_link (inside : (name, fid) ∈ t.children d)
    (file : (t.node fid.vnode).type ≠ .directory) (more : (t.node fid.vnode).linkCount ≠ 1) (used : t'.used = t.used)
    (others : ∀ m, m ≠ fid.vnode → m ≠ d → t'.node m = t.node m)
    (atN : t'.node fid.vnode = { t.node fid.vnode with linkCount := (t.node fid.vnode).linkCount - 1 })
    (atD : t'.node d = { t.node d with entries := (t.node d).entries.filter fun e => e.1 ≠ name }) : t'.Consistent := by
  have dir := (mem_children.mp inside).1
  have inUse : fid.vnode ∈ t.used := (cons.child d _ inside).1
  have apart : fid.vnode ≠ d := by intro same; exact file (by rw [same]; exact dir.2)
  let middle : Tree := ⟨t.used, update t.node d (t'.node d)⟩
  have here : middle.node d = t'.node d := update_self _ _ _
  have rest {m : Nat} (other : m ≠ d) : middle.node m = t.node m := update_of_ne other _ _
  have same : SameVnodes t middle :=
    { used := rfl
      type := fun m => by by_cases isD : m = d <;> simp [isD, here, rest, atD]
      unique := fun m => by by_cases isD : m = d <;> simp [isD, here, rest, atD]
      parent := fun m => by by_cases isD : m = d <;> simp [isD, here, rest, atD] }
  have detached := cons.detach inside apart same (fun m other => rest other) (by rw [here, atD])
    (by rw [here, atD, if_neg file, Int.sub_zero])
  have links := detached.file fid.vnode inUse (by rwa [rest apart])
  rw [if_pos rfl, rest apart] at links
  refine detached.relink inUse (by rwa [rest apart]) (by simp) (by simp) used ?_ (by rw [rest apart]; exact atN) ?_ ?_
  · intro m isN
    by_cases isD : m = d
    · rw [isD, here]
    · rw [others m isN isD, rest isD]
  · rw [rest apart, if_neg (by simp), links]
    omega
  · intro _ none
    rw [rest apart] at none
    rw [none] at links
    exact more links

theorem ConsistentBut.remove_last (inside : (name, fid) ∈ t.children d) (apart : fid.vnode ≠ d)
    (last : (t.node fid.vnode).type ≠ .directory → (t.node fid.vnode).linkCount = 1)
    (empty : (t.node fid.vnode).type = .directory → t.children fid.vnode = [])
    (used : t'.used = t.used.erase fid.vnode) (others : ∀ m, m ≠ fid.vnode → m ≠ d → t'.node m = t.node m)
    (atD : t'.node d = { t.node d with
      entries := (t.node d).entries.filter fun e => e.1 ≠ name
      linkCount := (t.node d).linkCount - if (t.node fid.vnode).type = .directory then 1 else 0 }) : t'.Consistent := by
  have inUse : fid.vnode ∈ t.used := (cons.child d _ inside).1
  let middle : Tree := ⟨t.used, update t.node d (t'.node d)⟩
  have here : middle.node d = t'.node d := update_self _ _ _
  have rest {m : Nat} (other : m ≠ d) : middle.node m = t.node m := update_of_ne other _ _
  have same : SameVnodes t middle :=
    { used := rfl
      type := fun m => by by_cases isD : m = d <;> simp [isD, here, rest, atD]
      unique := fun m => by by_cases isD : m = d <;> simp [isD, here, rest, atD]
      parent := fun m => by by_cases isD : m = d <;> simp [isD, here, rest, atD] }
  have detached := cons.detach inside apart same (fun m other => rest other) (by rw [here, atD]) (by rw [here, atD])
  refine detached.free inUse used ?_ ?_ ?_
  · intro m isN
    by_cases isD : m = d
    · rw [isD, here]
    · rw [others m isN isD, rest isD]
  · intro file
    have links := detached.file fid.vnode inUse file
    rw [rest apart] at file
    rw [if_pos rfl, rest apart, last file] at links
    rw [rest apart]
    omega
  · rw [rest apart]
    intro isDir
    rw [← empty isDir]
    exact children_congr (same.isDir _) (by rw [rest apart])

theorem ConsistentBut.move {newName : Name} (inside : (name, fid) ∈ t.children d)
    (dir : t.IsDir w) (apart : fid.vnode ≠ d) (apart' : fid.vnode ≠ w)
    (fresh : newName ∉ (t.node w).entries.map Prod.fst)
    (single : d = w ∨ (t.node fid.vnode).type = .directory ∨ (t.node fid.vnode).linkCount = 1)
    (used : t'.used = t.used) (others : ∀ m, m ≠ fid.vnode → m ≠ d → m ≠ w → t'.node m = t.node m)
    (atN : t'.node fid.vnode = { t.node fid.vnode with parent := w, entries := l })
    (up : (t.node fid.vnode).type = .directory → ∃ unique, l = retarget (t.node fid.vnode).entries ⟨w, unique⟩)
    (atD : d ≠ w → t'.node d = { t.node d with
      entries := (t.node d).entries.filter fun e => e.1 ≠ name
      linkCount := (t.node d).linkCount - if (t.node fid.vnode).type = .directory then 1 else 0 })
    (atW : t'.node w = { t.node w with
      entries := (if d = w then (t.node w).entries.filter fun e => e.1 ≠ name else (t.node w).entries) ++ [(newName, fid)]
      linkCount := (t.node w).linkCount + if (t.node fid.vnode).type = .directory ∧ d ≠ w then 1 else 0 }) :
    t'.Consistent := by
  have inUse : fid.vnode ∈ t.used := (cons.child d _ inside).1
  have unique : (t.node fid.vnode).unique = fid.unique := (cons.child d _ inside).2.1
  have parent : (t.node fid.vnode).parent = d := (cons.child d _ inside).2.2
  let atD' : Node := { t.node d with
    entries := (t.node d).entries.filter fun e => e.1 ≠ name
    linkCount := (t.node d).linkCount - if (t.node fid.vnode).type = .directory then 1 else 0 }
  let middle : Tree := ⟨t.used, update t.node d atD'⟩
  have here : middle.node d = atD' := update_self _ _ _
  have rest {m : Nat} (other : m ≠ d) : middle.node m = t.node m := update_of_ne other _ _
  have same : SameVnodes t middle :=
    { used := rfl
      type := fun m => by by_cases isD : m = d <;> simp [isD, here, rest, atD']
      unique := fun m => by by_cases isD : m = d <;> simp [isD, here, rest, atD']
      parent := fun m => by by_cases isD : m = d <;> simp [isD, here, rest, atD'] }
  have detached := cons.detach inside apart same (fun m other => rest other) (by rw [here]) (by rw [here])
  have absent : newName ∉ (middle.node w).entries.map Prod.fst := by
    by_cases isD : w = d
    · rw [isD, here]
      rw [isD] at fresh
      intro inside'
      obtain ⟨e, kept, key⟩ := List.mem_map.mp inside'
      exact fresh (List.mem_map.mpr ⟨e, (List.mem_filter.mp kept).1, key⟩)
    · rwa [rest isD]
  refine detached.attach (w := w) (l := l) inUse ((same.isDir w).mpr dir) apart' absent ?_ used ?_ ?_ ?_ ?_
  · rcases single with sameDir | isDir | one
    · left
      rw [rest apart, parent, sameDir]
    · right
      intro k
      have nonroot : fid.vnode ≠ 1 := by simpa using detached.root.2.2
      have none := detached.directory fid.vnode ((same.isDir _).mpr ⟨inUse, isDir⟩) nonroot
      rw [if_pos rfl] at none
      by_cases above : (middle.node fid.vnode).parent = k
      · rw [← above]
        exact none
      · exact detached.names_eq_zero above
    by_cases isDir : (t.node fid.vnode).type = .directory
    · right
      intro k
      have nonroot : fid.vnode ≠ 1 := by simpa using detached.root.2.2
      have none := detached.directory fid.vnode ((same.isDir _).mpr ⟨inUse, isDir⟩) nonroot
      rw [if_pos rfl] at none
      by_cases above : (middle.node fid.vnode).parent = k
      · rw [← above]
        exact none
      · exact detached.names_eq_zero above
    right
    intro k
    have links := detached.file fid.vnode inUse (by rwa [rest apart])
    rw [if_pos rfl, rest apart, one] at links
    by_cases above : (middle.node fid.vnode).parent = k
    · rw [rest apart] at above
      rw [← above]
      omega
    · exact detached.names_eq_zero above
  · intro m isN isW
    by_cases isD : m = d
    · subst isD
      rw [here, atD isW]
    · rw [rest isD, others m isN isD isW]
  · rw [rest apart]
    exact atN
  · rw [rest apart]
    exact up
  · rw [rest apart]
    by_cases isD : w = d
    · subst isD
      rw [here, atW, if_pos rfl, unique]
      simp only [atD']
      congr 1
      split <;> simp_all
    · rw [rest isD, atW, if_neg (Ne.symm isD), unique]
      simp [Ne.symm isD]

end Tree

end OpenAFS.Viced
