import Mathlib.Data.List.Perm.Subperm
import OpenAFS.Afs.CbQueue

namespace OpenAFS.Afs

open Function (update update_self update_of_ne)
open Lib List

def buckets : Set Nat := {a | a ≠ 0 ∧ a ≤ CBHTSIZE}

theorem head_mem {i : Nat} (small : i < CBHTSIZE) : head i ∈ buckets := ⟨Nat.succ_ne_zero i, small⟩

theorem head_inj {i j : Nat} (same : head i = head j) : i = j := Nat.succ.inj same

theorem bucket_eq {a : Nat} (inside : a ∈ buckets) : ∃ i < CBHTSIZE, a = head i := by
  rcases inside with ⟨some, small⟩
  exact ⟨a - 1, by omega, by unfold head; omega⟩

namespace Links

variable (l : Links) {q q1 q2 e : Nat}

theorem QAdd_eq (other : e ≠ q) :
    l.QAdd q e = ⟨update (update l.next e (l.next q)) q e, update (update l.prev e q) (l.next q) e⟩ := by
  unfold QAdd setNext setPrev
  simp only [update_of_ne (Ne.symm other)]

theorem QRemove_eq (other : e ≠ l.next e) :
    l.QRemove e = ⟨update (update l.next (l.prev e) (l.next e)) e 0, update (update l.prev (l.next e) (l.prev e)) e 0⟩ := by
  unfold QRemove setNext setPrev
  simp only [update_of_ne other]

theorem QCat_eq (one : q1 ≠ l.prev q2) (two : q1 ≠ l.next q1) :
    l.QCat q1 q2 = ⟨update (update (update l.next (l.prev q2) (l.next q1)) (l.prev q1) q2) q1 q1,
      update (update (update l.prev (l.next q1) (l.prev q2)) q2 (l.prev q1)) q1 q1⟩ := by
  unfold QCat setNext setPrev
  simp only [update_of_ne one, update_of_ne two]

theorem QInit_next (a : Nat) : (l.QInit q).next a = if a = q then q else l.next a := by
  show update l.next q q a = _
  rw [Function.update_apply]

theorem QInit_prev (a : Nat) : (l.QInit q).prev a = if a = q then q else l.prev a := by
  show update l.prev q q a = _
  rw [Function.update_apply]

end Links

structure Placed (C : VCaches) (l : Links) (chain : Nat → List Nat) (place : Nat → Option Nat) : Prop where
  queues : Queues l.next l.prev buckets chain
  on : ∀ i < CBHTSIZE, ∀ v, v ∈ chain (head i) ↔ place v = some i
  known : ∀ v i, place v = some i → i < CBHTSIZE ∧ v ∈ C.cells

namespace Placed

variable {C : VCaches} {l : Links} {chain : Nat → List Nat} {place : Nat → Option Nat} {v i j : Nat}

theorem notBucket (inside : v ∈ C.cells) : v ∉ buckets := by
  intro bucket
  have large := C.notHeads v inside
  have small := bucket.2
  omega

theorem nonzero (inside : v ∈ C.cells) : v ≠ 0 := by
  have large := C.notHeads v inside
  omega

section

variable (placed : Placed C l chain place)
include placed

theorem nowhere (off : place v = none) : ∀ h ∈ buckets, v ∉ chain h := by
  intro h bucket inside
  rcases bucket_eq bucket with ⟨i, small, rfl⟩
  rw [placed.on i small, off] at inside
  cases inside

theorem off_iff : (∀ h ∈ buckets, v ∉ chain h) ↔ place v = none := by
  constructor
  · intro nowhere
    cases slotted : place v with
    | none => rfl
    | some i =>
      have small := (placed.known v i slotted).1
      exact absurd ((placed.on i small v).mpr slotted) (nowhere (head i) (head_mem small))
  · exact fun off => placed.nowhere off

theorem next_eq_zero (inside : v ∈ C.cells) : l.next v = 0 ↔ place v = none :=
  (placed.queues.next_eq_zero_iff (notBucket inside)).trans placed.off_iff

theorem prev_eq_zero (inside : v ∈ C.cells) : l.prev v = 0 ↔ place v = none :=
  (placed.queues.prev_eq_zero_iff (notBucket inside)).trans placed.off_iff

theorem walk_eq (small : i < CBHTSIZE) {fuel : Nat}
    (enough : (chain (head i)).length ≤ fuel) : walk l.prev (head i) fuel (l.prev (head i)) = (chain (head i)).reverse :=
  (placed.queues.path _ (head_mem small)).walk_prev (placed.queues.head_notMem (head_mem small) (head_mem small)) enough

theorem length_le (small : i < CBHTSIZE) : (chain (head i)).length ≤ C.CBQ_LIMIT := by
  have sub : chain (head i) ⊆ C.cells := by
    intro v inside
    exact (placed.known v i ((placed.on i small v).mp inside)).2
  have few := (List.Nodup.subperm (placed.queues.once _ (head_mem small)) sub).length_le
  have counted := C.counted
  unfold VCaches.CBQ_LIMIT
  omega

theorem add (inside : v ∈ C.cells) (off : place v = none) (small : i < CBHTSIZE) :
    Placed C (l.QAdd (head i) v) (update chain (head i) (v :: chain (head i))) (update place v (some i)) := by
  have here := head_mem small
  have other : v ≠ head i := fun same => notBucket inside (same ▸ here)
  rw [l.QAdd_eq other]
  constructor
  · exact placed.queues.add here (notBucket inside) (nonzero inside) (placed.nowhere off) rfl rfl
  · intro j small' w
    by_cases this : w = v
    · subst this
      rw [update_self]
      by_cases slot : j = i
      · subst slot
        rw [update_self]
        exact ⟨fun _ => rfl, fun _ => mem_cons_self⟩
      rw [update_of_ne (fun same => slot (head_inj same)), placed.on j small', off]
      constructor
      · intro wrong
        cases wrong
      · intro same
        exact absurd (Option.some.inj same).symm slot
    · rw [update_of_ne this, ← placed.on j small']
      by_cases slot : j = i
      · subst slot
        rw [update_self, mem_cons]
        exact or_iff_right this
      · rw [update_of_ne (fun same => slot (head_inj same))]
  · intro w j slotted
    by_cases this : w = v
    · subst this
      rw [update_self] at slotted
      exact ⟨Option.some.inj slotted ▸ small, inside⟩
    · rw [update_of_ne this] at slotted
      exact placed.known w j slotted

theorem remove (at' : place v = some i) {before after : List Nat}
    (split : chain (head i) = before ++ v :: after) :
    Placed C (l.QRemove v) (update chain (head i) (before ++ after)) (update place v none) := by
  rcases placed.known v i at' with ⟨small, inside⟩
  have here := head_mem small
  have path := placed.queues.path _ here
  have once := placed.queues.nodup_cons here
  rw [split] at path once
  have other : v ≠ l.next v := by
    intro same
    have member := (Path.append.mp path).2.first_mem
    rw [← same] at member
    rw [← cons_append, nodup_middle, nodup_cons] at once
    apply once.1
    rcases List.mem_append.mp member with late | final
    · exact mem_cons_of_mem _ (mem_append_right _ late)
    · exact List.mem_cons.mpr (Or.inl (List.mem_singleton.mp final))
  rw [l.QRemove_eq other]
  have gone : v ∉ before ++ after := by
    have turned := (List.nodup_cons.mp once).2
    rw [nodup_middle, nodup_cons] at turned
    exact turned.1
  constructor
  · exact placed.queues.remove here split rfl rfl
  · intro j small' w
    by_cases this : w = v
    · subst this
      rw [update_self]
      constructor
      · intro member
        by_cases slot : j = i
        · subst slot
          rw [update_self] at member
          exact absurd member gone
        · rw [update_of_ne (fun same => slot (head_inj same)), placed.on j small', at'] at member
          exact absurd (Option.some.inj member).symm slot
      · intro wrong
        cases wrong
    · rw [update_of_ne this, ← placed.on j small']
      by_cases slot : j = i
      · subst slot
        rw [update_self, split]
        simp only [mem_append, mem_cons]
        tauto
      · rw [update_of_ne (fun same => slot (head_inj same))]
  · intro w j slotted
    by_cases this : w = v
    · subst this
      rw [update_self] at slotted
      cases slotted
    · rw [update_of_ne this] at slotted
      exact placed.known w j slotted

theorem cat (small : i < CBHTSIZE) (small' : j < CBHTSIZE) (other : i ≠ j)
    (some' : chain (head i) ≠ []) :
    Placed C (l.QCat (head i) (head j)) (update (update chain (head j) (chain (head j) ++ chain (head i))) (head i) [])
      (fun v => if place v = some i then some j else place v) := by
  have here := head_mem small
  have there := head_mem small'
  have differ : head i ≠ head j := fun same => other (head_inj same)
  have one : head i ≠ l.prev (head j) :=
    placed.queues.ne_of_mem here there differ mem_cons_self (placed.queues.prev_head_mem there)
  have two : head i ≠ l.next (head i) := by
    intro same
    have path := placed.queues.path _ here
    cases split : chain (head i) with
    | nil => exact some' split
    | cons first rest =>
      rw [split] at path
      rw [path.1] at same
      apply placed.queues.head_notMem here here
      rw [split, same]
      exact mem_cons_self
  rw [l.QCat_eq one two]
  constructor
  · exact placed.queues.cat here there differ some' rfl rfl
  · intro k smallK v
    by_cases first : k = i
    · subst first
      rw [update_self]
      constructor
      · intro wrong
        cases wrong
      intro slotted
      by_cases was : place v = some k
      · rw [if_pos was] at slotted
        exact absurd (Option.some.inj slotted).symm other
      · rw [if_neg was] at slotted
        exact absurd slotted was
    rw [update_of_ne (fun same => first (head_inj same))]
    by_cases second : k = j
    · subst second
      rw [update_self, mem_append, placed.on k smallK, placed.on i small]
      by_cases was : place v = some i
      · rw [if_pos was]
        exact ⟨fun _ => rfl, fun _ => Or.inr was⟩
      · rw [if_neg was]
        exact or_iff_left was
    rw [update_of_ne (fun same => second (head_inj same)), placed.on k smallK]
    by_cases was : place v = some i
    · rw [if_pos was, was]
      constructor
      · intro same
        exact absurd (Option.some.inj same).symm first
      · intro same
        exact absurd (Option.some.inj same).symm second
    · rw [if_neg was]
  · intro v k slotted
    by_cases was : place v = some i
    · rw [if_pos was] at slotted
      exact ⟨Option.some.inj slotted ▸ small', (placed.known v i was).2⟩
    · rw [if_neg was] at slotted
      exact placed.known v k slotted

end

theorem foldl_QInit (l : Links) (n : Nat) :
    (∀ a, ((List.range n).foldl (fun l i => l.QInit (head i)) l).next a = if a ≠ 0 ∧ a ≤ n then a else l.next a) ∧
      ∀ a, ((List.range n).foldl (fun l i => l.QInit (head i)) l).prev a = if a ≠ 0 ∧ a ≤ n then a else l.prev a := by
  induction n with
  | zero =>
    constructor
    all_goals
      intro a
      rw [if_neg (fun small => small.1 (Nat.le_zero.mp small.2))]
      rfl
  | succ n ih =>
    rw [range_succ, foldl_append]
    constructor
    · intro a
      show (Links.QInit _ (head n)).next a = _
      rw [Links.QInit_next, ih.1 a]
      unfold head
      by_cases this : a = n + 1
      · rw [if_pos this, if_pos (by omega), this]
      rw [if_neg this]
      by_cases small : a ≠ 0 ∧ a ≤ n
      · rw [if_pos small, if_pos (by omega)]
      · rw [if_neg small, if_neg (by omega)]
    intro a
    show (Links.QInit _ (head n)).prev a = _
    rw [Links.QInit_prev, ih.2 a]
    unfold head
    by_cases this : a = n + 1
    · rw [if_pos this, if_pos (by omega), this]
    rw [if_neg this]
    by_cases small : a ≠ 0 ∧ a ≤ n
    · rw [if_pos small, if_pos (by omega)]
    · rw [if_neg small, if_neg (by omega)]

theorem init (off : ∀ c, c ∉ buckets → l.next c = 0 ∧ l.prev c = 0) :
    Placed C ((List.range CBHTSIZE).foldl (fun l i => l.QInit (head i)) l) (fun _ => []) fun _ => none := by
  rcases foldl_QInit l CBHTSIZE with ⟨nexts, prevs⟩
  constructor
  · apply Queues.empty
    · exact fun h bucket => bucket.1
    · intro h bucket
      exact ⟨(nexts h).trans (if_pos bucket), (prevs h).trans (if_pos bucket)⟩
    · intro c cell
      exact ⟨(nexts c).trans ((if_neg cell).trans (off c cell).1), (prevs c).trans ((if_neg cell).trans (off c cell).2)⟩
  · intro i _ v
    constructor
    · intro wrong
      cases wrong
    · intro wrong
      cases wrong
  · intro v i slotted
    cases slotted

end Placed

namespace CbQueue

variable {C : VCaches} {s : CbQueue} {chain : Nat → List Nat} {place : Nat → Option Nat} {v secs : Nat}

theorem raiseVolume_same (avp : Option Nat) : (s.raiseVolume v avp).links = s.links ∧
    (s.raiseVolume v avp).base = s.base ∧ (s.raiseVolume v avp).basetime = s.basetime ∧
    (s.raiseVolume v avp).vcache = s.vcache ∧ (s.raiseVolume v avp).now = s.now := by
  cases avp with
  | none => exact ⟨rfl, rfl, rfl, rfl, rfl⟩
  | some avp =>
    simp only [raiseVolume]
    cases s.findVolume avp with
    | none => exact ⟨rfl, rfl, rfl, rfl, rfl⟩
    | some tvp =>
      by_cases lower : tvp.expireTime < (s.vcache v).cbExpires
      · simp only [if_pos lower, and_self]
      · simp only [if_neg lower, and_self]

def Parked (C : VCaches) (s : CbQueue) (place : Nat → Option Nat) : Prop := ∃ chain, Placed C s.links chain place

theorem size_pos : 0 < CBHTSIZE := by decide

theorem queueCallback_parked (parked : s.Parked C place) (inside : v ∈ C.cells) (atime : Nat) (avp : Option Nat) :
    (s.queueCallback v atime avp).Parked C
      (if place v = none then update place v (some ((atime + s.base) % CBHTSIZE)) else place) := by
  rcases parked with ⟨chain, placed⟩
  rcases raiseVolume_same (s := s) (v := v) avp with ⟨links, base, -, -, -⟩
  unfold queueCallback
  by_cases off : place v = none
  · rw [if_pos off, if_pos (links ▸ (placed.next_eq_zero inside).mpr off)]
    refine ⟨update chain (head ((atime + s.base) % CBHTSIZE)) (v :: chain (head ((atime + s.base) % CBHTSIZE))), ?_⟩
    show Placed C ((s.raiseVolume v avp).links.QAdd (head ((atime + (s.raiseVolume v avp).base) % CBHTSIZE)) v) _ _
    rw [links, base]
    exact placed.add inside off (Nat.mod_lt _ size_pos)
  · rw [if_neg off, if_neg (links ▸ fun zero => off ((placed.next_eq_zero inside).mp zero))]
    exact ⟨chain, links ▸ placed⟩

theorem dequeueCallback_parked (parked : s.Parked C place) (inside : v ∈ C.cells) :
    (s.dequeueCallback v).Parked C (update place v none) := by
  rcases parked with ⟨chain, placed⟩
  unfold dequeueCallback
  cases slotted : place v with
  | none =>
    rw [if_neg (not_not.mpr ((placed.prev_eq_zero inside).mpr slotted)), ← slotted, Function.update_eq_self]
    exact ⟨chain, placed⟩
  | some i =>
    have linked : s.links.prev v ≠ 0 := by
      intro zero
      rw [placed.prev_eq_zero inside, slotted] at zero
      cases zero
    rw [if_pos linked]
    rcases append_of_mem ((placed.on i (placed.known v i slotted).1 v).mpr slotted) with ⟨before, after, split⟩
    exact ⟨_, placed.remove slotted split⟩

end CbQueue

end OpenAFS.Afs
