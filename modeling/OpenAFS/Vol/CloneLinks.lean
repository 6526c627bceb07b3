import Mathlib.Data.List.Count
import OpenAFS.Vol.CloneLoop

namespace OpenAFS.Vol

open Lib List

variable (a : CloneArgs)

def naming (ino : BitVec 64) (vs : List VnodeDiskObject) : Nat :=
  vs.countP fun v => v.type a.host ≠ vNull ∧ v.ino a.host = ino

def naming0 (ino : BitVec 64) (vs : List VnodeDiskObject) : Nat :=
  vs.countP fun v => v.type a.host = vNull ∧ v.ino a.host = ino

/-- A record in use names an inode that the old clone's record beside it does not. -/
def Links (v : VnodeDiskObject) (clinode : BitVec 64) : Prop :=
  v.type a.host ≠ vNull ∧ v.ino a.host ≠ 0 ∧ clinode ≠ v.ino a.host

def Unlinks (v : VnodeDiskObject) (clinode : BitVec 64) : Prop :=
  clinode ≠ 0 ∧ (v.type a.host = vNull ∨ clinode ≠ v.ino a.host)

instance (v : VnodeDiskObject) (clinode : BitVec 64) : Decidable (Links a v clinode) := inferInstanceAs (Decidable (_ ∧ _))
instance (v : VnodeDiskObject) (clinode : BitVec 64) : Decidable (Unlinks a v clinode) := inferInstanceAs (Decidable (_ ∧ _))

/-- The inodes that are linked once more for the records of the original beside those of the old clone. -/
def linked : List VnodeDiskObject → List VnodeDiskObject → List (BitVec 64)
  | [], _ => []
  | v :: rest, olds =>
    if Links a v (firstInode a.host olds) then v.ino a.host :: linked rest olds.tail else linked rest olds.tail

def queued : List VnodeDiskObject → List VnodeDiskObject → List (BitVec 64)
  | [], _ => []
  | v :: rest, olds =>
    if Unlinks a v (firstInode a.host olds) then firstInode a.host olds :: queued rest olds.tail else queued rest olds.tail

/-- The records in use have their magic number, and no link count goes past its bound. -/
structure Accepted (rws olds : List VnodeDiskObject) (links : BitVec 64 → Nat) : Prop where
  magic : ∀ v ∈ rws, v.type a.host ≠ vNull → v.vnodeMagic a.host = a.vcp.magic
  room : ∀ ino ∈ linked a rws olds, links ino + (linked a rws olds).count ino ≤ maxLinks

variable {a} {rws olds : List VnodeDiskObject} {links : BitVec 64 → Nat} {items : List (BitVec 64)} {v : VnodeDiskObject}
  {clinode : BitVec 64}

def linksAfter (a : CloneArgs) (v : VnodeDiskObject) (clinode : BitVec 64) (links : BitVec 64 → Nat) : BitVec 64 → Nat :=
  if Links a v clinode then Function.update links (v.ino a.host) (links (v.ino a.host) + 1) else links

theorem cloneSlot_ok (magic : v.type a.host ≠ vNull → v.vnodeMagic a.host = a.vcp.magic)
    (room : Links a v clinode → links (v.ino a.host) < maxLinks) :
    cloneSlot a v clinode links items =
      .ok (linksAfter a v clinode links, if Unlinks a v clinode then items ++ [clinode] else items) := by
  unfold cloneSlot linksAfter
  by_cases null : v.type a.host = vNull
  · have kept : ¬ Links a v clinode := fun both => both.1 null
    have queues : Unlinks a v clinode ↔ clinode ≠ 0 := ⟨And.left, fun some => ⟨some, .inl null⟩⟩
    simp only [if_pos null, if_neg kept, queues]
  rw [if_neg null, if_neg (not_not.mpr (magic null))]
  have queues : Unlinks a v clinode ↔ clinode ≠ 0 ∧ clinode ≠ v.ino a.host := by
    refine and_congr_right fun _ => ⟨fun either => either.resolve_left null, .inr⟩
  by_cases shared : clinode ≠ 0 ∧ clinode = v.ino a.host
  · have kept : ¬ Links a v clinode := fun both => both.2.2 shared.2
    have stays : ¬ Unlinks a v clinode := fun both => (queues.mp both).2 shared.2
    rw [if_pos shared, if_neg kept, if_neg stays]
  rw [if_neg shared]
  have queues' : Unlinks a v clinode ↔ clinode ≠ 0 := by
    refine ⟨And.left, fun some => queues.mpr ⟨some, fun same => shared ⟨some, same⟩⟩⟩
  by_cases zero : v.ino a.host = 0
  · have kept : ¬ Links a v clinode := fun both => both.2.1 zero
    simp only [if_pos zero, if_neg kept, queues']
  have links_ : Links a v clinode := by
    refine ⟨null, zero, fun same => shared ⟨?_, same⟩⟩
    rw [same]
    exact zero
  rw [if_neg zero, if_neg (Nat.not_le.mpr (room links_)), if_pos links_]
  simp only [queues']

theorem cloneSlot_refused (items : List (BitVec 64)) (refused : ¬ ((v.type a.host ≠ vNull → v.vnodeMagic a.host = a.vcp.magic) ∧
    (Links a v clinode → links (v.ino a.host) < maxLinks))) :
    ∃ code, cloneSlot a v clinode links items = .error code ∧ code ≠ 0 := by
  unfold cloneSlot
  by_cases null : v.type a.host = vNull
  · exact absurd ⟨fun used => absurd null used, fun both => absurd null both.1⟩ refused
  rw [if_neg null]
  by_cases bad : v.vnodeMagic a.host ≠ a.vcp.magic
  · exact ⟨badMagic, if_pos bad, by decide⟩
  have full : Links a v clinode ∧ maxLinks ≤ links (v.ino a.host) := by
    by_contra room
    refine refused ⟨fun _ => not_not.mp bad, fun both => ?_⟩
    by_contra more
    exact room ⟨both, Nat.not_lt.mp more⟩
  obtain ⟨⟨-, some, other⟩, full⟩ := full
  refine ⟨eio, ?_, by decide⟩
  rw [if_neg bad, if_neg fun both => other both.2, if_neg some, if_pos full]

theorem accepted_cons : Accepted a (v :: rws) olds links ↔ (v.type a.host ≠ vNull → v.vnodeMagic a.host = a.vcp.magic) ∧
    (Links a v (firstInode a.host olds) → links (v.ino a.host) < maxLinks) ∧
    Accepted a rws olds.tail (linksAfter a v (firstInode a.host olds) links) := by
  have magics : (∀ w ∈ v :: rws, w.type a.host ≠ vNull → w.vnodeMagic a.host = a.vcp.magic) ↔
      (v.type a.host ≠ vNull → v.vnodeMagic a.host = a.vcp.magic) ∧
        ∀ w ∈ rws, w.type a.host ≠ vNull → w.vnodeMagic a.host = a.vcp.magic := forall_mem_cons
  have rooms : (∀ ino ∈ linked a (v :: rws) olds, links ino + (linked a (v :: rws) olds).count ino ≤ maxLinks) ↔
      (Links a v (firstInode a.host olds) → links (v.ino a.host) < maxLinks) ∧
        ∀ ino ∈ linked a rws olds.tail, linksAfter a v (firstInode a.host olds) links ino +
          (linked a rws olds.tail).count ino ≤ maxLinks := by
    rw [linked]
    unfold linksAfter
    by_cases links_ : Links a v (firstInode a.host olds)
    · have value (ino : BitVec 64) : Function.update links (v.ino a.host) (links (v.ino a.host) + 1) ino +
          (linked a rws olds.tail).count ino = links ino + (v.ino a.host :: linked a rws olds.tail).count ino := by
        by_cases same : ino = v.ino a.host
        · subst same
          rw [Function.update_self, count_cons_self]
          omega
        · rw [Function.update_of_ne same, count_cons_of_ne (Ne.symm same)]
      simp only [if_pos links_, forall_mem_cons, value]
      refine and_congr_left fun later => ⟨fun room _ => ?_, fun first => ?_⟩
      · rw [count_cons_self] at room
        omega
      by_cases again : v.ino a.host ∈ linked a rws olds.tail
      · exact later _ again
      · have below := first links_
        rw [count_cons_self, count_eq_zero_of_not_mem again]
        exact below
    · simp only [if_neg links_]
      exact ⟨fun all => ⟨fun no => absurd no links_, all⟩, And.right⟩
  constructor
  · rintro ⟨magic, room⟩
    exact ⟨(magics.mp magic).1, (rooms.mp room).1, (magics.mp magic).2, (rooms.mp room).2⟩
  · rintro ⟨magic, first, magic', room⟩
    exact ⟨magics.mpr ⟨magic, magic'⟩, rooms.mpr ⟨first, room⟩⟩

theorem cloneSlots_accepted (accepted : Accepted a rws olds links) : cloneSlots a rws olds links items =
      .ok (fun ino => links ino + (linked a rws olds).count ino, items ++ queued a rws olds) := by
  induction rws generalizing olds links items with
  | nil => simp [cloneSlots, linked, queued]
  | cons v rest ih =>
    obtain ⟨magic, room, later⟩ := accepted_cons.mp accepted
    refine except_bind_eq_ok.mpr ⟨_, cloneSlot_ok magic room, (ih later).trans ?_⟩
    refine congrArg Except.ok (Prod.ext (funext fun ino => ?_) ?_)
    · change linksAfter a v _ links ino + _ = links ino + (linked a (v :: rest) olds).count ino
      rw [linked]
      unfold linksAfter
      by_cases links_ : Links a v (firstInode a.host olds)
      · rw [if_pos links_, if_pos links_]
        by_cases same : ino = v.ino a.host
        · subst same
          rw [Function.update_self, count_cons_self]
          omega
        · rw [Function.update_of_ne same, count_cons_of_ne (Ne.symm same)]
      · rw [if_neg links_, if_neg links_]
    · change (if Unlinks a v _ then _ else _) ++ _ = items ++ queued a (v :: rest) olds
      rw [queued]
      by_cases unlinks : Unlinks a v (firstInode a.host olds)
      · rw [if_pos unlinks, if_pos unlinks, append_assoc, singleton_append]
      · rw [if_neg unlinks, if_neg unlinks]

theorem cloneSlots_refused (items : List (BitVec 64)) (refused : ¬ Accepted a rws olds links) :
    ∃ code, cloneSlots a rws olds links items = .error code ∧ code ≠ 0 := by
  induction rws generalizing olds links items with
  | nil =>
    refine absurd ⟨fun v inside => ?_, fun ino inside => ?_⟩ refused
    · cases inside
    · cases inside
  | cons v rest ih =>
    by_cases first : (v.type a.host ≠ vNull → v.vnodeMagic a.host = a.vcp.magic) ∧
        (Links a v (firstInode a.host olds) → links (v.ino a.host) < maxLinks)
    · have later : ¬ Accepted a rest olds.tail (linksAfter a v (firstInode a.host olds) links) := fun fine =>
        refused (accepted_cons.mpr ⟨first.1, first.2, fine⟩)
      obtain ⟨code, failed, nonzero⟩ := ih
        (if Unlinks a v (firstInode a.host olds) then items ++ [firstInode a.host olds] else items) later
      exact ⟨code, except_bind_eq_error.mpr (.inr ⟨_, cloneSlot_ok first.1 first.2, failed⟩), nonzero⟩
    · obtain ⟨code, failed, nonzero⟩ := cloneSlot_refused items first
      exact ⟨code, except_bind_eq_error.mpr (.inl failed), nonzero⟩

theorem slot_balance {ino : BitVec 64} (some : ino ≠ 0) :
    (if Links a v clinode ∧ v.ino a.host = ino then 1 else 0) + (if clinode = ino then 1 else 0) =
      (if v.type a.host ≠ vNull ∧ v.ino a.host = ino then 1 else 0) + if Unlinks a v clinode ∧ clinode = ino then 1 else 0 := by
  unfold Links Unlinks
  by_cases here : clinode = ino
  · subst here
    by_cases null : v.type a.host = vNull
    · rw [if_neg fun both => both.1.1 null, if_pos rfl, if_neg fun both => both.1 null, if_pos ⟨⟨some, .inl null⟩, rfl⟩]
    by_cases same : v.ino a.host = clinode
    · rw [if_neg fun both => both.1.2.2 same.symm, if_pos rfl, if_pos ⟨null, same⟩,
        if_neg fun both => both.1.2.elim null fun other => other same.symm]
    · rw [if_neg fun both => same both.2, if_pos rfl, if_neg fun both => same both.2, if_pos ⟨⟨some, .inr (Ne.symm same)⟩, rfl⟩]
  by_cases same : v.ino a.host = ino
  · subst same
    have stays : ¬ ((clinode ≠ 0 ∧ (v.type a.host = vNull ∨ clinode ≠ v.ino a.host)) ∧ clinode = v.ino a.host) := fun both =>
      here both.2
    rw [if_neg here, if_neg stays]
    by_cases null : v.type a.host = vNull
    · rw [if_neg fun both => both.1.1 null, if_neg fun both => both.1 null]
    · rw [if_pos ⟨⟨null, some, here⟩, rfl⟩, if_pos ⟨null, rfl⟩]
  · rw [if_neg fun both => same both.2, if_neg here, if_neg fun both => same both.2, if_neg fun both => here both.2]

theorem count_balance {ino : BitVec 64} (some : ino ≠ 0) :
    (linked a rws olds).count ino + (naming a ino (olds.take rws.length) + naming0 a ino (olds.take rws.length)) =
      naming a ino rws + (queued a rws olds).count ino := by
  have linkedCount (v : VnodeDiskObject) (rest olds : List VnodeDiskObject) : (linked a (v :: rest) olds).count ino =
      (linked a rest olds.tail).count ino + if Links a v (firstInode a.host olds) ∧ v.ino a.host = ino then 1 else 0 := by
    rw [linked]
    by_cases links_ : Links a v (firstInode a.host olds)
    · simp [links_, count_cons]
    · simp [links_]
  have queuedCount (v : VnodeDiskObject) (rest olds : List VnodeDiskObject) : (queued a (v :: rest) olds).count ino =
      (queued a rest olds.tail).count ino +
        if Unlinks a v (firstInode a.host olds) ∧ firstInode a.host olds = ino then 1 else 0 := by
    rw [queued]
    by_cases unlinks : Unlinks a v (firstInode a.host olds)
    · simp [unlinks, count_cons]
    · simp [unlinks]
  have first (olds : List VnodeDiskObject) (n : Nat) :
      naming a ino (olds.take (n + 1)) + naming0 a ino (olds.take (n + 1)) =
        naming a ino (olds.tail.take n) + naming0 a ino (olds.tail.take n) + if firstInode a.host olds = ino then 1 else 0 := by
    cases olds with
    | nil =>
      have zero : firstInode a.host [] ≠ ino := Ne.symm some
      rw [if_neg zero, tail_nil, take_nil, take_nil, Nat.add_zero]
    | cons o olds =>
      unfold naming naming0
      by_cases same : o.ino a.host = ino
      · by_cases null : o.type a.host = vNull
        · simp [firstInode, same, null]
          omega
        · simp [firstInode, same, null]
          omega
      · simp [firstInode, same]
  induction rws generalizing olds with
  | nil => simp [linked, queued, naming, naming0]
  | cons v rest ih =>
    have slot := @slot_balance a v (firstInode a.host olds) ino some
    have later := @ih olds.tail
    have more : naming a ino (v :: rest) = naming a ino rest + if v.type a.host ≠ vNull ∧ v.ino a.host = ino then 1 else 0 := by
      unfold naming
      rw [countP_cons]
      simp
    rw [linkedCount, queuedCount, length_cons, first, more]
    omega

theorem count_linked_le (ino : BitVec 64) : (linked a rws olds).count ino ≤ naming a ino rws := by
  induction rws generalizing olds with
  | nil => exact Nat.le_refl _
  | cons v rest ih =>
    have later := @ih olds.tail
    unfold naming at later ⊢
    rw [linked, countP_cons]
    by_cases links_ : Links a v (firstInode a.host olds)
    · rw [if_pos links_, count_cons]
      by_cases same : v.ino a.host = ino
      · rw [if_pos (beq_iff_eq.mpr same), if_pos (decide_eq_true ⟨links_.1, same⟩)]
        omega
      · rw [if_neg fun equal => same (beq_iff_eq.mp equal)]
        omega
    · rw [if_neg links_]
      omega

theorem naming_setCloned (ino : BitVec 64) (vs : List VnodeDiskObject) (cloned : Bool) :
    naming a ino (vs.map fun v => v.setCloned a.host cloned) = naming a ino vs := by
  unfold naming
  rw [countP_map]
  apply countP_congr
  intro v _
  simp

end OpenAFS.Vol
