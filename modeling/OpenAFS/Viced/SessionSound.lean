import Mathlib.Tactic.Abel
import OpenAFS.Viced.Namespace
import OpenAFS.Viced.Session

namespace OpenAFS.Viced

open Function (update)
open Lib

def held (n : Option Nat) : Multiset Ref := n.elim 0 fun n => {.vnode n}

def refs (volptr : Bool) (ptr : Ptr → Option Nat) : Multiset Ref :=
  (if volptr then {.volume} else 0) + held (ptr .parentptr) + held (ptr .targetptr) + held (ptr .oldvptr) +
    (if ptr .newvptr = ptr .oldvptr then 0 else held (ptr .newvptr)) + held (ptr .fileptr) + held (ptr .newfileptr)

def Ptr.ofRename : Ptr → Bool
  | .parentptr | .targetptr => false
  | .oldvptr | .newvptr | .fileptr | .newfileptr => true

namespace Session

variable {s : Session}

def final (s : Session) : Volume := { s.volume with used := s.volume.used \ s.delete }

structure Tidy (rename : Bool) (s : Session) : Prop where
  books : s.taken = s.putBack + refs s.volptr s.ptr
  delete : ∀ n ∈ s.delete, ∃ p, s.ptr p = some n
  own : ∀ p, s.ptr p ≠ none → p.ofRename = rename

@[simp] theorem vPutVnode_ptr (p : Ptr) : (s.vPutVnode p).ptr = s.ptr := by
  unfold vPutVnode
  split <;> rfl

@[simp] theorem vPutVnode_volptr (p : Ptr) : (s.vPutVnode p).volptr = s.volptr := by
  unfold vPutVnode
  split <;> rfl

@[simp] theorem vPutVnode_taken (p : Ptr) : (s.vPutVnode p).taken = s.taken := by
  unfold vPutVnode
  split <;> rfl

theorem vPutVnode_putBack (p : Ptr) : (s.vPutVnode p).putBack = held (s.ptr p) + s.putBack := by
  unfold vPutVnode
  split
  · rename_i unset
    simp [unset, held]
  · rename_i n set
    rw [set]
    rfl

theorem mem_vPutVnode_delete (p : Ptr) (n : Nat) : n ∈ (s.vPutVnode p).delete ↔ n ∈ s.delete ∧ s.ptr p ≠ some n := by
  unfold vPutVnode
  split
  · rename_i unset
    simp [unset]
  · rename_i m set
    rw [set, Finset.mem_erase, and_comm, Ne, Ne, Option.some_inj, eq_comm]

theorem vPutVnode_final (p : Ptr) : (s.vPutVnode p).final = s.final := by
  unfold vPutVnode final
  split
  · rfl
  rename_i n set
  dsimp only
  split
  · rename_i marked
    congr 1
    ext m
    by_cases same : m = n
    · simp [same, marked]
    · simp [same]
  · rename_i unmarked
    rw [Finset.erase_eq_of_notMem unmarked]

theorem putAll_ptr (ps : List Ptr) : (ps.foldl vPutVnode s).ptr = s.ptr ∧ (ps.foldl vPutVnode s).volptr = s.volptr ∧
    (ps.foldl vPutVnode s).taken = s.taken ∧ (ps.foldl vPutVnode s).final = s.final := by
  induction ps generalizing s with
  | nil => exact ⟨rfl, rfl, rfl, rfl⟩
  | cons p ps ih =>
    obtain ⟨ptr, volptr, taken, final⟩ := ih (s := s.vPutVnode p)
    exact ⟨ptr.trans (vPutVnode_ptr p), volptr.trans (vPutVnode_volptr p), taken.trans (vPutVnode_taken p),
      final.trans (vPutVnode_final p)⟩

theorem putAll_putBack (ps : List Ptr) : (ps.foldl vPutVnode s).putBack = (ps.map fun p => held (s.ptr p)).sum + s.putBack := by
  induction ps generalizing s with
  | nil => exact (zero_add _).symm
  | cons p ps ih =>
    rw [List.foldl_cons, ih, vPutVnode_putBack, vPutVnode_ptr, List.map_cons, List.sum_cons]
    abel

theorem mem_putAll_delete (ps : List Ptr) (n : Nat) :
    n ∈ (ps.foldl vPutVnode s).delete ↔ n ∈ s.delete ∧ ∀ p ∈ ps, s.ptr p ≠ some n := by
  induction ps generalizing s with
  | nil => simp
  | cons p ps ih =>
    rw [List.foldl_cons, ih, mem_vPutVnode_delete, vPutVnode_ptr, List.forall_mem_cons, and_assoc]

theorem putAll_settles {rename : Bool} (tidy : s.Tidy rename) (ps : List Ptr)
    (sum : (if s.volptr then {.volume} else 0) + (ps.map fun p => held (s.ptr p)).sum = refs s.volptr s.ptr)
    (all : ∀ p n, s.ptr p = some n → ∃ q ∈ ps, s.ptr q = some n) :
    (s.putVolumePackage ps).taken = (s.putVolumePackage ps).putBack ∧ (s.putVolumePackage ps).volume = s.final := by
  obtain ⟨ptr, volptr, taken, final⟩ := putAll_ptr (s := s) ps
  have gone : (ps.foldl vPutVnode s).delete = ∅ := by
    refine Finset.eq_empty_of_forall_notMem fun n marked => ?_
    obtain ⟨before, none⟩ := (mem_putAll_delete ps n).mp marked
    obtain ⟨p, set⟩ := tidy.delete n before
    obtain ⟨q, inside, set'⟩ := all p n set
    exact none q inside set'
  have volume : (ps.foldl vPutVnode s).volume = s.final := by
    rw [← final]
    unfold Session.final
    rw [gone, Finset.sdiff_empty]
  unfold putVolumePackage vPutVolume
  rw [volptr]
  split
  · rename_i isSet
    rw [if_pos isSet] at sum
    refine ⟨?_, volume⟩
    rw [taken, putAll_putBack, tidy.books, ← sum, ← Multiset.singleton_add]
    rw [add_comm, add_assoc]
  rename_i unset
  rw [if_neg unset] at sum
  refine ⟨?_, volume⟩
  rw [taken, putAll_putBack, tidy.books, ← sum]
  abel

theorem bad_settles (tidy : s.Tidy false) : (bad s).taken = (bad s).putBack ∧ (bad s).volume = s.final := by
  have none (p : Ptr) (other : p.ofRename = true) : s.ptr p = none := by
    by_contra set
    rw [tidy.own p set] at other
    cases other
  refine putAll_settles tidy _ ?_ fun p n set => ⟨p, ?_, set⟩
  · simp [refs, none .oldvptr rfl, none .newvptr rfl, none .fileptr rfl, none .newfileptr rfl, held]
    abel
  cases p with
  | parentptr => simp
  | targetptr => simp
  | oldvptr => rw [none .oldvptr rfl] at set; cases set
  | newvptr => rw [none .newvptr rfl] at set; cases set
  | fileptr => rw [none .fileptr rfl] at set; cases set
  | newfileptr => rw [none .newfileptr rfl] at set; cases set

theorem badRename_settles (tidy : s.Tidy true) :
    (badRename s).taken = (badRename s).putBack ∧ (badRename s).volume = s.final := by
  have none (p : Ptr) (other : p.ofRename = false) : s.ptr p = none := by
    by_contra set
    rw [tidy.own p set] at other
    cases other
  refine putAll_settles tidy (.newfileptr :: .fileptr ::
    ((if s.ptr .newvptr = s.ptr .oldvptr then [] else [.newvptr]) ++ [.oldvptr])) ?_ fun p n set => ?_
  · by_cases one : s.ptr .newvptr = s.ptr .oldvptr
    · simp [refs, none .parentptr rfl, none .targetptr rfl, one, held]
      abel
    · simp [refs, none .parentptr rfl, none .targetptr rfl, one, held]
      abel
  cases p with
  | parentptr => rw [none .parentptr rfl] at set; cases set
  | targetptr => rw [none .targetptr rfl] at set; cases set
  | oldvptr => exact ⟨.oldvptr, by simp, set⟩
  | fileptr => exact ⟨.fileptr, by simp, set⟩
  | newfileptr => exact ⟨.newfileptr, by simp, set⟩
  | newvptr =>
    by_cases one : s.ptr .newvptr = s.ptr .oldvptr
    · exact ⟨.oldvptr, by simp, one ▸ set⟩
    · exact ⟨.newvptr, by simp [one], set⟩

structure Holds (s : Session) (v : Volume) (volptr : Bool) (ptr : Ptr → Option Nat) : Prop where
  volume : s.volume = v
  volptr : s.volptr = volptr
  ptr : s.ptr = ptr
  delete : s.delete = ∅
  books : s.taken = s.putBack + refs s.volptr s.ptr

variable {v w : Volume} {volptr rename : Bool} {ptr : Ptr → Option Nat}

theorem start_holds (v : Volume) : Holds { volume := v } v false fun _ => none := ⟨rfl, rfl, rfl, rfl, rfl⟩

theorem Holds.tidy (holds : s.Holds v volptr ptr) (own : ∀ p, ptr p ≠ none → p.ofRename = rename) : s.Tidy rename :=
  ⟨holds.books, fun n marked => by simp [holds.delete] at marked, by rwa [holds.ptr]⟩

theorem Holds.final (holds : s.Holds v volptr ptr) : s.final = v := by
  unfold Session.final
  rw [holds.delete, Finset.sdiff_empty, ← holds.volume]

theorem Holds.change (holds : s.Holds v volptr ptr) {f : Volume → Volume} (same : f v = w) : (s.change f).Holds w volptr ptr :=
  ⟨(congrArg f holds.volume).trans same, holds.volptr, holds.ptr, holds.delete, holds.books⟩

theorem Tidy.change (tidy : s.Tidy rename) (f : Volume → Volume) : (s.change f).Tidy rename :=
  ⟨tidy.books, tidy.delete, tidy.own⟩

structure Agrees (s : Session) (code : Int) (r : Volume × Int) : Prop where
  code : code = r.2
  online : s.final.online = r.1.online
  volume : r.1.online = true → s.final = r.1

theorem Agrees.of_final {code : Int} (final : s.final = v) : s.Agrees code (v, code) :=
  ⟨rfl, congrArg Volume.online final, fun _ => final⟩

end Session

open Session

def Ends (rename : Bool) (r : Volume × Int) : Leave → Session → Prop
  | .goto code, s => s.Tidy rename ∧ s.Agrees code r
  | .out code, s => s.taken = s.putBack ∧ code = r.2 ∧ s.volume.online = r.1.online ∧ (r.1.online = true → s.volume = r.1)

def Serves (rename : Bool) (x : Act Unit) (r : Volume × Int) (s : Session) : Prop :=
  Ensures x (fun _ => Ends rename r (.goto 0)) (Ends rename r) s

structure Served (r : Volume × Int) (result : Session × Int) : Prop where
  settled : result.1.taken = result.1.putBack
  code : result.2 = r.2
  online : result.1.volume.online = r.1.online
  volume : r.1.online = true → result.1.volume = r.1

variable {s : Session} {v : Volume} {r : Volume × Int} {volptr rename : Bool} {ptr : Ptr → Option Nat} {x : Act Unit}
  {rest : Unit → Act Unit} {dir fid : Fid} {name : Name} {fate : CallFate}

variable {code : Int} {c : Prop} {post : Unit → Session → Prop} {stop : Leave → Session → Prop}
  {f next : Volume → Volume × Int} {p : Ptr} {n d old new : Nat} {file newFile : Option Nat} {newName : Name}

theorem Ends.served {label : Session → Session} (ends : Ends rename r (.goto code) s)
    (settles : (label s).taken = (label s).putBack ∧ (label s).volume = s.final) : Served r (label s, code) where
  settled := settles.1
  code := ends.2.code
  online := (congrArg Volume.online settles.2).trans ends.2.online
  volume online := settles.2.trans (ends.2.volume online)

theorem Serves.served {label : Session → Session} (serves : Serves rename x r { volume := v })
    (settles : ∀ s, s.Tidy rename → (label s).taken = (label s).putBack ∧ (label s).volume = s.final) :
    Served r (serve label x v) := by
  unfold Serves Ensures at serves
  unfold serve
  cases left : x { volume := v } with
  | ok a s =>
    rw [left] at serves
    exact Ends.served serves (settles s serves.1)
  | error e s =>
    rw [left] at serves
    cases e with
    | goto code => exact Ends.served serves (settles s serves.1)
    | out code => exact ⟨serves.1, serves.2.1, serves.2.2.1, serves.2.2.2⟩

@[simp] theorem ensures_check [Decidable c] :
    Ensures (Act.check c code) post stop s ↔ (c → post () s) ∧ (¬ c → stop (.goto code) s) := Ensures.ite

@[simp] theorem ensures_step :
    Ensures (Act.step f) post stop s ↔ ((f s.volume).2 = 0 → post () { s with volume := (f s.volume).1 }) ∧
        ((f s.volume).2 ≠ 0 → stop (.goto (f s.volume).2) { s with volume := (f s.volume).1 }) := by
  simp [Act.step]

@[simp] theorem ensures_change {f : Volume → Volume} : Ensures (Act.change f) post stop s ↔ post () (s.change f) := Iff.rfl

theorem ensures_check_then {α : Type} [Decidable c] {rest : Unit → Act α} {post : α → Session → Prop}
    (passes : c → Ensures (rest ()) post stop s) (fails : ¬ c → stop (.goto code) s) :
    Ensures (Act.check c code >>= rest) post stop s := Ensures.bind.mpr (ensures_check.mpr ⟨passes, fails⟩)

theorem Serves.check [Decidable c] (tidy : s.Tidy rename) (fails : ¬ c → r = (s.final, code))
    (passes : c → Serves rename (rest ()) r s) : Serves rename (Act.check c code >>= rest) r s :=
  ensures_check_then passes fun bad => ⟨tidy, fails bad ▸ Agrees.of_final rfl⟩

structure Blind (f : Volume → Volume) : Prop where
  used : ∀ v u, f { v with used := u } = { f v with used := u }

theorem Blind.final {f : Volume → Volume} (blind : Blind f) : (s.change f).final = f s.final := by
  have kept := congrArg Volume.used (blind.used s.volume s.volume.used)
  have same : (f s.volume).used = s.volume.used := kept
  unfold Session.final
  rw [blind.used]
  show { f s.volume with used := (f s.volume).used \ s.delete } = _
  rw [same]

theorem Serves.change {f : Volume → Volume} (next : Serves rename (rest ()) r (s.change f)) :
    Serves rename (Act.change f >>= rest) r s := Ensures.bind.mpr next

theorem Serves.last {f : Volume → Volume} (tidy : s.Tidy rename) (final : (s.change f).final = v) :
    Serves rename (Act.change f) (v, 0) s := ⟨tidy.change f, Agrees.of_final final⟩

theorem Serves.step (holds : s.Holds v volptr ptr) (own : ∀ p, ptr p ≠ none → p.ofRename = rename)
    (passes : ∀ s', s'.Holds (f v).1 volptr ptr → (f v).2 = 0 → Serves rename (rest ()) (next (f v).1) s') :
    Serves rename (Act.step f >>= rest) (andThen (f v) next) s := by
  have after : Session.Holds { s with volume := (f s.volume).1 } (f v).1 volptr ptr :=
    ⟨by rw [← holds.volume], holds.volptr, holds.ptr, holds.delete, holds.books⟩
  rw [← holds.volume] at passes after ⊢
  refine Ensures.bind.mpr (ensures_step.mpr ⟨fun success => ?_, fun failure => ?_⟩)
  · rw [andThen, if_pos success]
    exact passes _ after success
  · rw [andThen, if_neg failure]
    exact ⟨after.tidy own, Agrees.of_final after.final⟩

structure Room (ptr : Ptr → Option Nat) (p : Ptr) (n : Nat) : Prop where
  unset : ptr p = none
  refs : ∀ volptr, refs volptr (update ptr p (some n)) = .vnode n ::ₘ refs volptr ptr

theorem vGetVnode_ensures (holds : s.Holds v volptr ptr) (room : Room ptr p n) :
    Ensures (Act.vGetVnode p n) (fun _ s' => n ∈ v.used ∧ s'.Holds v volptr (update ptr p (some n)))
      (fun e s' => n ∉ v.used ∧ e = .goto vnovnode ∧ s'.Holds v volptr ptr) s := by
  have cleared : update s.ptr p none = s.ptr := by
    rw [holds.ptr, ← room.unset, Function.update_eq_self]
  simp only [Act.vGetVnode, Ensures.bind, Ensures.get, Ensures.set, ensures_check, holds.volume]
  refine ⟨fun inUse => ⟨inUse, holds.volume, holds.volptr, ?_, holds.delete, ?_⟩,
    fun unused => ⟨unused, trivial, holds.volume, holds.volptr, cleared.trans holds.ptr, holds.delete, ?_⟩⟩
  · exact congrArg (update · p (some n)) holds.ptr
  · show .vnode n ::ₘ s.taken = s.putBack + Viced.refs s.volptr (update s.ptr p (some n))
    rw [holds.ptr, room.refs, holds.books, holds.ptr, Multiset.add_cons]
  · show s.taken = s.putBack + Viced.refs s.volptr (update s.ptr p none)
    rw [cleared]
    exact holds.books

theorem vGetVolume_ensures (holds : s.Holds v false ptr) :
    Ensures (Act.vGetVolume fate) (fun _ s' => v.online = true ∧ s'.Holds v true ptr)
      (fun e s' => v.online ≠ true ∧ e = .goto voffline ∧ ∃ volptr, s'.Holds v volptr ptr) s := by
  have found : Session.Holds { s with volptr := true, taken := .volume ::ₘ s.taken } v true ptr := by
    refine ⟨holds.volume, rfl, holds.ptr, holds.delete, ?_⟩
    show .volume ::ₘ s.taken = s.putBack + refs true s.ptr
    rw [holds.books, holds.volptr]
    simp [refs]
  have same := holds.volume
  subst same
  simp only [Act.vGetVolume, Ensures.bind, Ensures.get, Ensures.whenever, Ensures.set, ensures_check]
  exact ⟨fun _ => ⟨fun online => ⟨online, found⟩, fun offline => ⟨offline, trivial, true, found⟩⟩,
    fun lost => ⟨fun online => absurd (.inl online) lost, fun offline => ⟨offline, trivial, false, holds⟩⟩⟩

theorem checkVnode_ensures (holds : s.Holds v volptr ptr) (room : Room ptr p fid.vnode)
    (online : volptr = true → v.online = true) :
    Ensures (Act.checkVnode fid p fate) (fun _ s' => v.checkVnode fid = 0 ∧ s'.Holds v true (update ptr p (some fid.vnode)))
      (fun e s' => v.checkVnode fid ≠ 0 ∧ e = .goto (v.checkVnode fid) ∧ ∃ volptr', s'.Holds v volptr' ptr) s := by
  unfold Act.checkVnode Volume.checkVnode
  refine ensures_check_then (fun isSet => ?_) fun zero => ?_
  swap
  · rw [if_pos (not_not.mp zero)]
    exact ⟨by decide, rfl, volptr, holds⟩
  rw [if_neg isSet]
  refine Ensures.get_then ?_
  have first : Ensures (whenever (¬ s.volptr = true) (Act.vGetVolume fate))
      (fun _ s' => v.online = true ∧ s'.Holds v true ptr)
      (fun e s' => v.online ≠ true ∧ e = .goto voffline ∧ ∃ volptr, s'.Holds v volptr ptr) s := by
    rw [Ensures.whenever, holds.volptr]
    refine ⟨fun unset => ?_, fun set => ?_⟩
    · rw [Bool.eq_false_of_not_eq_true unset] at holds
      exact vGetVolume_ensures holds
    · have set := not_not.mp set
      rw [set] at holds
      exact ⟨online set, holds⟩
  refine first.mono_then (fun _ s₁ after => ?_) fun e s₁ stopped => ?_
  swap
  · obtain ⟨offline, rfl, holds₁⟩ := stopped
    rw [if_pos offline]
    exact ⟨by decide, rfl, holds₁⟩
  obtain ⟨isOnline, holds₁⟩ := after
  rw [if_neg (not_not_intro isOnline)]
  refine (vGetVnode_ensures holds₁ room).mono_then (fun _ s₂ after => ?_) fun e s₂ stopped => ?_
  swap
  · obtain ⟨unused, rfl, holds₂⟩ := stopped
    rw [if_pos (.inl unused)]
    exact ⟨by decide, rfl, true, holds₂⟩
  obtain ⟨inUse, holds₂⟩ := after
  refine Ensures.get_then (Ensures.onError.mpr (ensures_check.mpr ⟨fun same => ?_, fun other => ?_⟩))
  · rw [holds₂.volume] at same
    rw [if_neg (by simp [inUse, same])]
    exact ⟨rfl, holds₂⟩
  rw [holds₂.volume] at other
  rw [if_pos (.inr other)]
  refine ⟨by decide, rfl, true, ?_⟩
  have set : s₂.ptr p = some fid.vnode := by rw [holds₂.ptr, Function.update_self]
  have cleared : update s₂.ptr p none = ptr := by
    rw [holds₂.ptr, Function.update_idem, ← room.unset, Function.update_eq_self]
  unfold Session.point Session.vPutVnode
  rw [set]
  dsimp only
  rw [holds₂.delete, if_neg (Finset.notMem_empty _), Finset.erase_empty]
  refine ⟨holds₂.volume, holds₂.volptr, cleared, rfl, ?_⟩
  show s₂.taken = .vnode fid.vnode ::ₘ s₂.putBack + refs s₂.volptr (update s₂.ptr p none)
  rw [cleared, holds₂.books, holds₂.ptr, room.refs, Multiset.add_cons, Multiset.cons_add]

theorem checkVnode_online (known : v.checkVnode fid = 0) : v.online = true := by
  unfold Volume.checkVnode at known
  split at known
  · cases known
  split at known
  · cases known
  · rename_i online
    exact not_not.mp online

theorem getVolumePackage_ensures (check : Int) (holds : s.Holds v volptr ptr) (room : Room ptr p fid.vnode)
    (online : volptr = true → v.online = true) :
    Ensures (Act.getVolumePackage fid p fate) (fun _ s' => v.online = true ∧ v.getVolumePackage fid check = check ∧
        s'.Holds v true (update ptr p (some fid.vnode)))
      (fun e s' => v.getVolumePackage fid check ≠ 0 ∧ e = .goto (v.getVolumePackage fid check) ∧
        (∃ volptr', s'.Holds v volptr' ptr ∨ s'.Holds v volptr' (update ptr p (some fid.vnode)))) s := by
  unfold Act.getVolumePackage Volume.getVolumePackage
  refine (checkVnode_ensures holds room online).mono_then (fun _ s₁ after => ?_) fun e s₁ stopped => ?_
  · obtain ⟨passed, holds₁⟩ := after
    rw [if_neg (not_not_intro passed)]
    refine Ensures.get_then (ensures_check.mpr ⟨fun isDir => ?_, fun other => ?_⟩)
    · rw [holds₁.volume] at isDir
      rw [if_neg (not_not_intro isDir)]
      exact ⟨checkVnode_online passed, rfl, holds₁⟩
    · rw [holds₁.volume] at other
      rw [if_pos other]
      exact ⟨by decide, rfl, true, .inr holds₁⟩
  · obtain ⟨failed, rfl, volptr', holds₁⟩ := stopped
    rw [if_pos failed]
    exact ⟨failed, rfl, volptr', .inl holds₁⟩

def atParent (d : Nat) : Ptr → Option Nat := update (fun _ => none) .parentptr (some d)

def atTarget (d n : Nat) : Ptr → Option Nat := update (atParent d) .targetptr (some n)

theorem atParent_own (d : Nat) : ∀ p, atParent d p ≠ none → p.ofRename = false := by
  intro p set
  cases p <;> first | rfl | exact absurd rfl set

theorem atTarget_own (d n : Nat) : ∀ p, atTarget d n p ≠ none → p.ofRename = false := by
  intro p set
  cases p <;> first | rfl | exact absurd rfl set

theorem room_parentptr (n : Nat) : Room (fun _ => none) .parentptr n := ⟨rfl, fun volptr => by
  simp [refs, held, add_comm, ← Multiset.singleton_add]⟩

theorem room_targetptr (d n : Nat) : Room (atParent d) .targetptr n := ⟨rfl, fun volptr => by
  simp [refs, held, atParent, ← Multiset.singleton_add]
  abel⟩

theorem Serves.inDirectory {next : Volume × Int} (holds : s.Holds v false fun _ => none)
    (passes : ∀ s', v.online = true → s'.Holds v true (atParent dir.vnode) → Serves false (rest ()) next s') :
    Serves false (Act.getVolumePackage dir .parentptr fate >>= fun _ => Act.check (fate.check = 0) fate.check >>= rest)
      (v.inDirectory dir fate.check next) s := by
  unfold Volume.inDirectory
  refine (getVolumePackage_ensures fate.check holds (room_parentptr dir.vnode)
    fun absurd => nomatch absurd).mono_then (fun _ s₁ after => ?_) fun e s₁ stopped => ?_
  · obtain ⟨online, code, holds₁⟩ := after
    rw [code]
    refine Serves.check (holds₁.tidy (atParent_own _)) (fun refused => ?_) fun allowed => ?_
    · rw [if_pos refused, holds₁.final]
    · rw [if_neg (not_not_intro allowed)]
      exact passes s₁ online holds₁
  · obtain ⟨refused, rfl, volptr, holds₁ | holds₁⟩ := stopped
    · rw [if_pos refused]
      exact ⟨holds₁.tidy (by simp), Agrees.of_final holds₁.final⟩
    · rw [if_pos refused]
      exact ⟨holds₁.tidy (atParent_own _), Agrees.of_final holds₁.final⟩

theorem Session.Holds.marked (holds : s.Holds v volptr ptr) (set : ptr p = some n)
    (own : ∀ p, ptr p ≠ none → p.ofRename = rename) : (s.mark n).Tidy rename where
  books := holds.books
  delete m marked := by
    unfold Session.mark at marked ⊢
    rw [holds.delete] at marked
    obtain rfl := Finset.mem_singleton.mp (by simpa using marked)
    exact ⟨p, by rw [holds.ptr]; exact set⟩
  own := by
    unfold Session.mark
    rwa [holds.ptr]

theorem Session.Holds.mark_final (holds : s.Holds v volptr ptr) (n : Nat) : (s.mark n).final = v.freeVnode n := by
  unfold Session.mark Session.final Volume.freeVnode
  rw [holds.delete, ← holds.volume]
  simp [Finset.sdiff_singleton_eq_erase]

theorem allocNewVnode_ensures (name : Name) (type : VnodeType) (blocks : Int) (fate : CallFate)
    (holds : s.Holds v true (atParent d)) :
    let r := v.allocNewVnode d name type blocks fate
    Ensures (Act.allocNewVnode d name type blocks fate)
      (fun _ s' => r.2 = 0 ∧ s'.Holds r.1 true (atTarget d fate.vnode)) (fun e s' => r.2 ≠ 0 ∧ Ends false r e s') s := by
  unfold Act.allocNewVnode Volume.allocNewVnode
  have charge : Session.Holds { s with volume := (s.volume.adjustDiskUsage blocks blocks).1 }
      (v.adjustDiskUsage blocks blocks).1 true (atParent d) :=
    ⟨by rw [← holds.volume], holds.volptr, holds.ptr, holds.delete, holds.books⟩
  refine Ensures.bind.mpr (ensures_step.mpr ⟨fun charged => ?_, fun refused => ?_⟩)
  swap
  · rw [holds.volume] at refused charge ⊢
    rw [andThen, if_neg refused]
    exact ⟨refused, charge.tidy (atParent_own d), Agrees.of_final charge.final⟩
  rw [holds.volume] at charged charge ⊢
  rw [andThen, if_pos charged]
  generalize { s with volume := (v.adjustDiskUsage blocks blocks).1 } = s₁ at charge ⊢
  generalize (v.adjustDiskUsage blocks blocks).1 = v₁ at charge ⊢
  refine Ensures.get_then (Ensures.bind.mpr (Ensures.onError.mpr (ensures_check.mpr
    ⟨fun allocated => ?_, fun refused => ?_⟩)))
  swap
  · rw [charge.volume] at refused ⊢
    rw [if_pos refused]
    have refunded := charge.change (f := fun v => (v.vAdjustDiskUsage (-blocks) 0).1) rfl
    exact ⟨refused, refunded.tidy (atParent_own d), Agrees.of_final refunded.final⟩
  rw [charge.volume] at allocated ⊢
  rw [if_neg (not_not_intro allocated)]
  dsimp only
  generalize (if v₁.NewInode fate.inode then fate.inode else 0) = inode
  refine Ensures.bind.mpr ((Ensures.set _).mpr ?_)
  have target : Session.Holds
      { (s₁.change fun v => v.allocVnode type fate.vnode inode).point .targetptr (some fate.vnode) with
        taken := .vnode fate.vnode ::ₘ s₁.taken } (v₁.allocVnode type fate.vnode inode) true (atTarget d fate.vnode) := by
    refine ⟨?_, charge.volptr, ?_, charge.delete, ?_⟩
    · show s₁.volume.allocVnode type fate.vnode inode = _
      rw [charge.volume]
    · exact congrArg (fun ptr => update ptr Ptr.targetptr (some fate.vnode)) charge.ptr
    · show .vnode fate.vnode ::ₘ s₁.taken = s₁.putBack + refs s₁.volptr (update s₁.ptr .targetptr (some fate.vnode))
      rw [charge.books, charge.ptr, (room_targetptr d fate.vnode).refs, Multiset.add_cons]
  generalize { (s₁.change fun v => v.allocVnode type fate.vnode inode).point .targetptr (some fate.vnode) with
    taken := .vnode fate.vnode ::ₘ s₁.taken } = s₂ at target ⊢
  generalize v₁.allocVnode type fate.vnode inode = v₂ at target ⊢
  -- the vnode is given up
  have givenUp {s' : Session} {w w' : Volume} {code : Int} (after : s'.Holds w' true (atTarget d fate.vnode))
      (same : w'.freeVnode fate.vnode = w) : Ends false (w, code) (.goto code) (s'.mark fate.vnode) :=
    ⟨after.marked (p := .targetptr) rfl (atTarget_own d _), Agrees.of_final ((after.mark_final _).trans same)⟩
  refine Ensures.bind.mpr (Ensures.onError.mpr (ensures_check.mpr ⟨fun made => ?_, fun none => ?_⟩))
  swap
  · rw [if_pos (not_not.mp none)]
    exact ⟨(by decide : enospc ≠ 0), givenUp (target.change rfl) rfl⟩
  rw [if_neg made]
  refine Ensures.onError.mpr (Ensures.bind.mpr (ensures_step.mpr ⟨fun copied => ?_, fun refused => ?_⟩))
  · have after : Session.Holds { s₂ with volume := (s₂.volume.copyIfCloned d fate).1 } (v₂.copyIfCloned d fate).1 true
        (atTarget d fate.vnode) :=
      ⟨by rw [← target.volume], target.volptr, target.ptr, target.delete, target.books⟩
    rw [target.volume] at copied after ⊢
    rw [andThen, if_pos copied]
    generalize { s₂ with volume := (v₂.copyIfCloned d fate).1 } = s₃ at after ⊢
    generalize (v₂.copyIfCloned d fate).1 = v₃ at after ⊢
    obtain rfl := after.volume
    refine ensures_step.mpr ⟨fun created => ?_, fun refused => ?_⟩
    · rw [if_neg (not_not_intro created)]
      exact ⟨created, rfl, after.volptr, after.ptr, after.delete, after.books⟩
    · rw [if_pos refused]
      exact ⟨refused, @givenUp _ _ _ _ ⟨rfl, after.volptr, after.ptr, after.delete, after.books⟩ rfl⟩
  · have after : Session.Holds { s₂ with volume := (s₂.volume.copyIfCloned d fate).1 } (v₂.copyIfCloned d fate).1 true
        (atTarget d fate.vnode) :=
      ⟨by rw [← target.volume], target.volptr, target.ptr, target.delete, target.books⟩
    rw [target.volume] at refused after ⊢
    rw [andThen, if_neg refused, if_pos refused]
    exact ⟨refused, givenUp ((after.change rfl).change rfl) rfl⟩

theorem Serves.allocNewVnode {type : VnodeType} {blocks : Int} (holds : s.Holds v true (atParent d))
    (passes : ∀ s', s'.Holds (v.allocNewVnode d name type blocks fate).1 true (atTarget d fate.vnode) →
      Serves false (rest ()) (next (v.allocNewVnode d name type blocks fate).1) s') :
    Serves false (Act.allocNewVnode d name type blocks fate >>= rest)
      (andThen (v.allocNewVnode d name type blocks fate) next) s := by
  refine (allocNewVnode_ensures name type blocks fate holds).mono_then
    (fun _ s' after => ?_) fun e s' stopped => ?_
  · rw [andThen, if_pos after.1]
    exact passes s' after.2
  · rw [andThen, if_neg stopped.1]
    exact stopped.2

theorem Session.Holds.none_own : ∀ p : Ptr, (none : Option Nat) ≠ none → p.ofRename = rename := fun _ set => absurd rfl set

section

variable (holds : s.Holds v false fun _ => none)
include holds

theorem Serves.creates {type : VnodeType} {blocks : Int}
    (passes : ∀ w s', s'.Holds w true (atTarget dir.vnode fate.vnode) → Serves false (rest ()) (next w) s') :
    Serves false (Act.check (fileNameOK name) einval >>= fun _ => Act.getVolumePackage dir .parentptr fate >>= fun _ =>
        Act.check (fate.check = 0) fate.check >>= fun _ => Act.allocNewVnode dir.vnode name type blocks fate >>= rest)
      (if ¬ fileNameOK name then (v, einval)
        else v.inDirectory dir fate.check (andThen (v.allocNewVnode dir.vnode name type blocks fate) next)) s := by
  refine Serves.check (holds.tidy Session.Holds.none_own) (fun bad => ?_) fun ok => ?_
  · rw [if_pos bad, holds.final]
  · rw [if_neg (not_not_intro ok)]
    exact Serves.inDirectory holds fun s₁ _ holds₁ => Serves.allocNewVnode holds₁ fun s₂ holds₂ => passes _ s₂ holds₂

theorem createFile_serves :
    Serves false (Act.createFile dir name fate) (v.createFile dir name fate) s :=
  Serves.creates holds fun _ _ holds => Serves.change
    (Serves.last ((holds.change rfl).tidy (atTarget_own _ _)) ((holds.change rfl).change rfl).final)

theorem makeDir_serves :
    Serves false (Act.makeDir dir name fate) (v.makeDir dir name fate) s :=
  Serves.creates holds fun _ _ holds => Serves.change (Serves.change
    (Serves.last (((holds.change rfl).change rfl).tidy (atTarget_own _ _)) (((holds.change rfl).change rfl).change rfl).final))

theorem symlink_serves {contents : List UInt8} :
    Serves false (Act.symlink dir name contents fate) (v.symlink dir name contents fate) s := by
  refine Serves.creates holds fun w s₁ holds₁ => Serves.change (Serves.change ?_)
  have ready :=
    (holds₁.change (f := fun v => v.updateParentVnodeStatus dir.vnode (v.vnode dir.vnode).linkCount fate) rfl).change
    (f := fun v => v.updateTargetVnodeStatus fate.vnode dir.vnode 1 contents.length) rfl
  dsimp only at ready ⊢
  generalize ((s₁.change _).change _) = s₂ at ready ⊢
  generalize (Volume.updateTargetVnodeStatus _ fate.vnode dir.vnode 1 contents.length) = w₂ at ready ⊢
  split
  · obtain ⟨taken, volume⟩ := Session.bad_settles (ready.tidy (atTarget_own _ _))
    exact ⟨taken, rfl, rfl, fun online => by cases online⟩
  refine Ensures.bind.mpr (Ensures.whenever.mpr ⟨fun written => ?_, fun short => ?_⟩)
  · rw [if_pos written]
    have done := ready.change (f := fun v => v.setData (v.vnode fate.vnode).inode contents) rfl
    exact ensures_check.mpr ⟨fun _ => ⟨done.tidy (atTarget_own _ _), Agrees.of_final done.final⟩,
      fun short => absurd written short⟩
  · rw [if_neg short]
    exact ensures_check.mpr ⟨fun written => absurd written short,
      fun _ => ⟨ready.tidy (atTarget_own _ _), Agrees.of_final ready.final⟩⟩

theorem link_serves {existing : Fid} :
    Serves false (Act.link dir name existing fate) (v.link dir name existing fate) s := by
  unfold Act.link Volume.link
  refine Serves.check (holds.tidy Session.Holds.none_own) (fun bad => ?_) fun ok => ?_
  · rw [if_pos bad, holds.final]
  rw [if_neg (not_not_intro ok)]
  refine Serves.inDirectory holds fun s₁ online holds₁ => ?_
  refine Serves.check (holds₁.tidy (atParent_own _)) (fun bad => ?_) fun apart => ?_
  · rw [if_pos (not_not.mp bad), holds₁.final]
  rw [if_neg apart]
  refine (checkVnode_ensures holds₁ (room_targetptr _ _) fun _ => online).mono_then (fun _ s₂ after => ?_)
    fun e s₂ stopped => ?_
  swap
  · obtain ⟨failed, rfl, volptr, holds₂⟩ := stopped
    rw [if_pos failed]
    exact ⟨holds₂.tidy (atParent_own _), Agrees.of_final holds₂.final⟩
  obtain ⟨passed, holds₂⟩ := after
  rw [if_neg (not_not_intro passed)]
  have own := atTarget_own dir.vnode existing.vnode
  refine Ensures.get_then ?_
  rw [holds₂.volume]
  refine Serves.check (holds₂.tidy own) (fun other => ?_) fun isFile => ?_
  · rw [if_pos other, holds₂.final]
  rw [if_neg (not_not_intro isFile)]
  refine Serves.check (holds₂.tidy own) (fun other => ?_) fun inside => ?_
  · rw [if_pos other, holds₂.final]
  rw [if_neg (not_not_intro inside)]
  refine Serves.step holds₂ own fun s₃ holds₃ _ => Serves.step holds₃ own fun s₄ holds₄ _ => Serves.change ?_
  exact Serves.last ((holds₄.change rfl).tidy own) ((holds₄.change rfl).change rfl).final

end

theorem unlinkTarget_ensures {mustBeDir : Bool} (holds : s.Holds v true (atTarget d n)) :
    let r := v.unlinkTarget d name n mustBeDir fate
    Ensures (Act.unlinkTarget d name n mustBeDir fate) (fun _ s' => r.2 = 0 ∧ s'.Tidy false ∧ s'.final = r.1)
      (fun e s' => r.2 ≠ 0 ∧ Ends false r e s') s := by
  unfold Act.unlinkTarget Volume.unlinkTarget
  have own := atTarget_own d n
  have lowered : Ensures (whenever (¬ mustBeDir = true) (Act.change fun v => v.setLinkCount n ((v.vnode n).linkCount - 1)))
      (fun _ s' => s'.Holds (if mustBeDir then v else v.setLinkCount n ((v.vnode n).linkCount - 1)) true (atTarget d n))
      (fun _ _ => False) s := by
    refine Ensures.whenever.mpr ⟨fun file => ?_, fun dir => ?_⟩
    · rw [if_neg file]
      exact holds.change rfl
    · rw [if_pos (not_not.mp dir)]
      exact holds
  refine lowered.mono_then (fun _ s₁ holds₁ => ?_) fun _ _ stopped => stopped.elim
  dsimp only
  generalize (if mustBeDir then v else v.setLinkCount n ((v.vnode n).linkCount - 1)) = v₁ at holds₁ ⊢
  refine Ensures.get_then ?_
  rw [holds₁.volume]
  split
  swap
  · have gone := holds₁.change (f := fun v => v.deleteEntry d name) rfl
    exact ⟨rfl, gone.tidy own, gone.final⟩
  refine Ensures.bind.mpr ((Ensures.modify _).mpr ?_)
  refine Ensures.bind.mpr (Ensures.onError.mpr (ensures_check.mpr ⟨fun lowers => ?_, fun fails => ?_⟩))
  swap
  · have fails := not_not.mp fails
    rw [if_pos fails]
    exact ⟨(by decide : eio ≠ 0), (holds₁.marked (p := .targetptr) rfl own).change _, rfl, rfl, fun online => by cases online⟩
  rw [if_neg lowers]
  obtain rfl := holds₁.volume
  -- the usage is adjusted, and the name deleted in any case
  have gone := holds₁.change (f := fun v => ((((v.decInode (v.vnode n).inode).setVnode n
    { v.vnode n with inode := 0 }).vAdjustDiskUsage (-(nBlocks (v.vnode n).length).bmod (2 ^ 32)) 0).1.deleteEntry d name)) rfl
  have tidy := gone.marked (p := .targetptr) (n := n) rfl own
  have final := gone.mark_final n
  refine Ensures.bind.mpr (Ensures.bind.mpr (Ensures.onError.mpr (ensures_step.mpr ⟨fun adjusted => ?_, fun refused => ?_⟩)))
  · exact ⟨adjusted, tidy, final⟩
  · exact ⟨refused, tidy, Agrees.of_final final⟩

theorem deleteTarget_ensures (name : Name) (mustBeDir : Bool) (fate : CallFate) (holds : s.Holds v true (atParent d)) :
    let r := v.deleteTarget d name mustBeDir fate
    Ensures (Act.deleteTarget d name mustBeDir fate) (fun _ s' => r.2 = 0 ∧ s'.Tidy false ∧ s'.final = r.1)
      (fun e s' => r.2 ≠ 0 ∧ Ends false r e s') s := by
  unfold Act.deleteTarget Volume.deleteTarget
  have own := atParent_own d
  refine ensures_check_then (fun plain => ?_) fun dots => ?_
  swap
  · rw [if_pos (not_not.mp dots)]
    exact ⟨(by decide : einval ≠ 0), holds.tidy own, Agrees.of_final holds.final⟩
  rw [if_neg plain]
  have after : Session.Holds { s with volume := (s.volume.copyIfCloned d fate).1 } (v.copyIfCloned d fate).1 true
      (atParent d) :=
    ⟨by rw [← holds.volume], holds.volptr, holds.ptr, holds.delete, holds.books⟩
  refine Ensures.bind.mpr (ensures_step.mpr ⟨fun copied => ?_, fun refused => ?_⟩)
  swap
  · rw [holds.volume] at refused after ⊢
    rw [andThen, if_neg refused]
    exact ⟨refused, after.tidy own, Agrees.of_final after.final⟩
  rw [holds.volume] at copied after ⊢
  rw [andThen, if_pos copied]
  generalize { s with volume := (v.copyIfCloned d fate).1 } = s₁ at after ⊢
  generalize (v.copyIfCloned d fate).1 = v₁ at after ⊢
  refine Ensures.get_then ?_
  rw [after.volume]
  cases found : v₁.lookup d name with
  | none => exact ⟨(by decide : enoent ≠ 0), after.tidy own, Agrees.of_final after.final⟩
  | some fid =>
    dsimp only
    refine ensures_check_then (fun apart => ?_) fun same => ?_
    swap
    · rw [if_pos (not_not.mp same)]
      exact ⟨(by decide : einval ≠ 0), after.tidy own, Agrees.of_final after.final⟩
    rw [if_neg apart]
    refine (vGetVnode_ensures after (room_targetptr d fid.vnode)).mono_then (fun _ s₂ taken => ?_)
      fun e s₂ stopped => ?_
    swap
    · obtain ⟨unused, rfl, holds₂⟩ := stopped
      rw [if_pos unused]
      exact ⟨(by decide : vnovnode ≠ 0), holds₂.tidy own, Agrees.of_final holds₂.final⟩
    obtain ⟨inUse, holds₂⟩ := taken
    rw [if_neg (not_not_intro inUse)]
    have own := atTarget_own d fid.vnode
    have stops {code : Int} (failure : code ≠ 0) : code ≠ 0 ∧ Ends false (v₁, code) (.goto code) s₂ :=
      ⟨failure, holds₂.tidy own, Agrees.of_final holds₂.final⟩
    refine Ensures.get_then ?_
    rw [holds₂.volume]
    refine ensures_check_then (fun isDir => ?_) fun other => ?_
    swap
    · rw [if_pos (Classical.not_imp.mp other)]
      exact stops (by decide : enotdir ≠ 0)
    rw [if_neg (mt Classical.not_imp.mpr (not_not_intro isDir))]
    refine ensures_check_then (fun isFile => ?_) fun other => ?_
    swap
    · rw [if_pos (by simpa using other)]
      exact stops (by decide : eisdir ≠ 0)
    rw [if_neg (by simpa using isFile)]
    refine Ensures.bind.mpr (Ensures.onError.mpr (ensures_check.mpr ⟨fun same => ?_, fun other => ?_⟩))
    swap
    · rw [if_pos other]
      have offline := holds₂.change (f := Volume.takeOffline) rfl
      exact ⟨(by decide : vsalvage ≠ 0), offline.tidy own, Agrees.of_final offline.final⟩
    rw [if_neg (not_not_intro same)]
    refine ensures_check_then (fun empty => ?_) fun full => ?_
    swap
    · rw [if_pos (Classical.not_imp.mp full)]
      exact stops (by decide : eexist ≠ 0)
    rw [if_neg (mt Classical.not_imp.mpr (not_not_intro empty))]
    exact unlinkTarget_ensures holds₂

theorem updateParentVnodeStatus_blind (d : Nat) (change : Int → Int) :
    Blind fun v => v.updateParentVnodeStatus d (change (v.vnode d).linkCount) fate where
  used v u := by
    unfold Volume.updateParentVnodeStatus Volume.usageCode Volume.addUsage Volume.setVnode
    dsimp only
    split <;> rfl

theorem Serves.removes {mustBeDir : Bool} (change : Int → Int) (holds : s.Holds v false fun _ => none) :
    Serves false (Act.getVolumePackage dir .parentptr fate >>= fun _ => Act.check (fate.check = 0) fate.check >>= fun _ =>
        Act.deleteTarget dir.vnode name mustBeDir fate >>= fun _ =>
        Act.change fun v => v.updateParentVnodeStatus dir.vnode (change (v.vnode dir.vnode).linkCount) fate)
      (v.inDirectory dir fate.check (andThen (v.deleteTarget dir.vnode name mustBeDir fate) fun v =>
        (v.updateParentVnodeStatus dir.vnode (change (v.vnode dir.vnode).linkCount) fate, 0))) s := by
  refine Serves.inDirectory holds fun s₁ _ holds₁ => Ensures.bind.mpr
    ((deleteTarget_ensures name mustBeDir fate holds₁).mono (fun _ s₂ after => ?_) fun e s₂ stopped => ?_)
  · obtain ⟨success, tidy, final⟩ := after
    rw [andThen, if_pos success]
    exact Serves.last tidy ((updateParentVnodeStatus_blind dir.vnode change).final.trans (by rw [final]))
  · rw [andThen, if_neg stopped.1]
    exact stopped.2

theorem removeFile_serves (holds : s.Holds v false fun _ => none) :
    Serves false (Act.removeFile dir name fate) (v.removeFile dir name fate) s :=
  Serves.removes id holds

theorem removeDir_serves (holds : s.Holds v false fun _ => none) :
    Serves false (Act.removeDir dir name fate) (v.removeDir dir name fate) s :=
  Serves.removes (· - 1) holds

def atDirs (old new : Nat) : Ptr → Option Nat :=
  update (update (fun _ => none) .oldvptr (some old)) .newvptr (some new)

theorem atDirs_own (old new : Nat) : ∀ p, atDirs old new p ≠ none → p.ofRename = true := by
  intro p set
  cases p <;> first | rfl | exact absurd rfl set

theorem alone_own (ofRename : p.ofRename = true) (n : Nat) :
    ∀ q, update (fun _ : Ptr => (none : Option Nat)) p (some n) q ≠ none → q.ofRename = true := by
  intro q set
  by_cases same : q = p
  · rwa [same]
  · rw [Function.update_of_ne same] at set
    exact absurd rfl set

theorem both_own {q : Ptr} (ofRename : p.ofRename = true ∧ q.ofRename = true) (n m : Nat) :
    ∀ x, update (update (fun _ : Ptr => (none : Option Nat)) p (some n)) q (some m) x ≠ none → x.ofRename = true := by
  intro x set
  by_cases same : x = q
  · rw [same]
    exact ofRename.2
  · rw [Function.update_of_ne same] at set
    exact alone_own ofRename.1 n x set

theorem packages_ensures {first second : Fid} {q : Ptr} (check : Int) (holds : s.Holds v false fun _ => none)
    (ofRename : p.ofRename = true ∧ q.ofRename = true) (room : Room (fun _ => none) p first.vnode)
    (room' : Room (update (fun _ => none) p (some first.vnode)) q second.vnode) :
    let code := if v.getVolumePackage first 0 ≠ 0 then v.getVolumePackage first 0 else v.getVolumePackage second check
    Ensures (Act.getVolumePackage first p fate >>= fun _ => Act.getVolumePackage second q fate)
      (fun _ s' => code = check ∧ s'.Holds v true (update (update (fun _ => none) p (some first.vnode)) q (some second.vnode)))
      (fun e s' => code ≠ 0 ∧ e = .goto code ∧ s'.Tidy true ∧ s'.final = v) s := by
  refine (getVolumePackage_ensures 0 holds room fun absurd => nomatch absurd).mono_then
    (fun _ s₁ after => ?_) fun e s₁ stopped => ?_
  swap
  · obtain ⟨refused, rfl, volptr, holds₁ | holds₁⟩ := stopped
    · rw [if_pos refused]
      exact ⟨refused, rfl, holds₁.tidy Session.Holds.none_own, holds₁.final⟩
    · rw [if_pos refused]
      exact ⟨refused, rfl, holds₁.tidy (alone_own ofRename.1 _), holds₁.final⟩
  obtain ⟨online, passed, holds₁⟩ := after
  rw [if_neg (not_not_intro passed)]
  refine (getVolumePackage_ensures check holds₁ room' fun _ => online).mono
    (fun _ s₂ after => ⟨after.2.1, after.2.2⟩) fun e s₂ stopped => ?_
  obtain ⟨refused, rfl, volptr, holds₂ | holds₂⟩ := stopped
  · exact ⟨refused, rfl, holds₂.tidy (alone_own ofRename.1 _), holds₂.final⟩
  · exact ⟨refused, rfl, holds₂.tidy (both_own ofRename _ _), holds₂.final⟩

theorem renamePackages_ensures {oldDir newDir : Fid} (check : Int) (holds : s.Holds v false fun _ => none) :
    Ensures (Act.renamePackages oldDir newDir fate)
      (fun _ s' => v.renamePackages oldDir newDir check = check ∧ s'.Holds v true (atDirs oldDir.vnode newDir.vnode))
      (fun e s' => v.renamePackages oldDir newDir check ≠ 0 ∧ e = .goto (v.renamePackages oldDir newDir check) ∧
        s'.Tidy true ∧ s'.final = v) s := by
  have roomOld (n : Nat) : Room (fun _ => none) .oldvptr n := ⟨rfl, fun volptr => by
    simp [refs, held, add_comm, ← Multiset.singleton_add]⟩
  have roomNew (n : Nat) : Room (fun _ => none) .newvptr n := ⟨rfl, fun volptr => by
    simp [refs, held, add_comm, ← Multiset.singleton_add]⟩
  unfold Act.renamePackages Volume.renamePackages
  by_cases one : oldDir.vnode = newDir.vnode
  · rw [if_pos one.le, if_pos one, if_pos one]
    refine (getVolumePackage_ensures check holds (roomOld oldDir.vnode)
      fun absurd => nomatch absurd).mono_then (fun _ s₁ after => ?_) fun e s₁ stopped => ?_
    · obtain ⟨-, passed, holds₁⟩ := after
      refine (Ensures.modify _).mpr ⟨passed, holds₁.volume, holds₁.volptr, ?_, holds₁.delete, ?_⟩
      · show update s₁.ptr .newvptr (s₁.ptr .oldvptr) = atDirs oldDir.vnode newDir.vnode
        rw [holds₁.ptr, Function.update_self, one]
        rfl
      · show s₁.taken = s₁.putBack + refs s₁.volptr (update s₁.ptr .newvptr (s₁.ptr .oldvptr))
        rw [holds₁.books, holds₁.ptr]
        simp [refs, held]
    · obtain ⟨refused, rfl, volptr, holds₁ | holds₁⟩ := stopped
      · exact ⟨refused, rfl, holds₁.tidy Session.Holds.none_own, holds₁.final⟩
      · exact ⟨refused, rfl, holds₁.tidy (alone_own rfl _), holds₁.final⟩
  by_cases upwards : oldDir.vnode < newDir.vnode
  · rw [if_pos upwards.le, if_neg one, if_neg one, if_pos upwards]
    refine packages_ensures check holds ⟨rfl, rfl⟩ (roomOld _) ⟨rfl, fun volptr => ?_⟩
    simp [refs, held, Ne.symm one, ← Multiset.singleton_add]
    abel
  rw [if_neg (by omega), if_neg one, if_neg upwards]
  have flip : update (update (fun _ => none) Ptr.newvptr (some newDir.vnode)) Ptr.oldvptr
      (some oldDir.vnode) = atDirs oldDir.vnode newDir.vnode := Function.update_comm (by decide) _ _ _
  rw [← flip]
  refine packages_ensures check holds ⟨rfl, rfl⟩ (roomNew _) ⟨rfl, fun volptr => ?_⟩
  simp [refs, held, Ne.symm one, ← Multiset.singleton_add]
  abel

def atFiles (old new : Nat) (file newFile : Option Nat) : Ptr → Option Nat :=
  update (update (atDirs old new) .fileptr file) .newfileptr newFile

theorem atFiles_own (old new : Nat) (file newFile : Option Nat) :
    ∀ p, atFiles old new file newFile p ≠ none → p.ofRename = true := by
  intro p set
  cases p <;> first | rfl | exact absurd rfl set

theorem atFiles_none (old new : Nat) : atFiles old new none none = atDirs old new := by
  funext p
  cases p <;> rfl

theorem room_fileptr (old new n : Nat) : Room (atFiles old new none none) .fileptr n := ⟨rfl, fun volptr => by
  simp [refs, held, atFiles, atDirs, ← Multiset.singleton_add]
  abel⟩

theorem room_newfileptr (old new : Nat) (file : Option Nat) (n : Nat) :
    Room (atFiles old new file none) .newfileptr n := ⟨rfl, fun volptr => by
  simp [refs, held, atFiles, atDirs, ← Multiset.singleton_add]
  abel⟩

theorem atFiles_fileptr (old new n : Nat) :
    update (atFiles old new none none) .fileptr (some n) = atFiles old new (some n) none := by
  funext p
  cases p <;> rfl

theorem atFiles_newfileptr (old new : Nat) (file : Option Nat) (n : Nat) :
    update (atFiles old new file none) .newfileptr (some n) = atFiles old new file (some n) := by
  funext p
  cases p <;> rfl

theorem refuses (holds : s.Holds v true (atFiles old new file newFile)) : Ends true (v.refuse ⟨false, code⟩) (.goto code) s :=
  ⟨holds.tidy (atFiles_own _ _ _ _), Agrees.of_final holds.final⟩

theorem refuses_offline (holds : s.Holds v true (atFiles old new file newFile)) :
    Ends true (v.refuse ⟨true, code⟩) (.goto code) (s.change Volume.takeOffline) :=
  ⟨(holds.change rfl).tidy (atFiles_own _ _ _ _), Agrees.of_final (holds.change rfl).final⟩

theorem ensure_fails {ε : Type} [Decidable c] {e : ε} (fails : ¬ c) : ensure c e = .error e := if_neg fails

theorem renameLookup_ensures {oldName : Name} (holds : s.Holds v true (atFiles old new none none)) :
    Ensures (Act.renameLookup old new oldName newName fate)
      (fun found s' => v.renameLookup old new oldName newName fate.replaceCheck = .ok found ∧
        s'.Holds v true (atFiles old new (some found.1.vnode) (found.2.map Fid.vnode)))
      (fun e s' => ∃ refusal, v.renameLookup old new oldName newName fate.replaceCheck = .error refusal ∧
        Ends true (v.refuse refusal) e s') s := by
  unfold Act.renameLookup Volume.renameLookup
  refine Ensures.get_then ?_
  rw [holds.volume]
  cases v.lookup old oldName with
  | none => exact ⟨⟨false, enoent⟩, rfl, refuses holds⟩
  | some fileFid =>
    dsimp only
    refine ensures_check_then (fun apart => ?_) fun same => ?_
    swap
    · rw [ensure_fails same]
      exact ⟨_, rfl, refuses holds⟩
    rw [ensure_eq_ok.mpr apart]
    refine Ensures.bind.mpr (Ensures.onError.mpr ((vGetVnode_ensures holds (room_fileptr old new fileFid.vnode)).mono
      (fun _ s₁ taken => ?_) fun e s₁ stopped => ?_))
    swap
    · obtain ⟨unused, rfl, holds₁⟩ := stopped
      rw [ensure_fails unused]
      exact ⟨_, rfl, refuses_offline holds₁⟩
    obtain ⟨inUse, holds₁⟩ := taken
    rw [ensure_eq_ok.mpr inUse]
    rw [atFiles_fileptr] at holds₁
    refine Ensures.get_then ?_
    rw [holds₁.volume]
    refine Ensures.bind.mpr (Ensures.onError.mpr (ensures_check.mpr ⟨fun same => ?_, fun other => ?_⟩))
    swap
    · rw [ensure_fails other]
      exact ⟨_, rfl, refuses_offline holds₁⟩
    rw [ensure_eq_ok.mpr same]
    refine ensures_check_then (fun single => ?_) fun linked => ?_
    swap
    · rw [ensure_fails linked]
      exact ⟨_, rfl, refuses holds₁⟩
    rw [ensure_eq_ok.mpr single]
    cases v.lookup new newName with
    | none => exact ⟨rfl, holds₁⟩
    | some newFileFid =>
      dsimp only
      refine ensures_check_then (fun allowed => ?_) fun denied => ?_
      swap
      · rw [ensure_fails denied]
        exact ⟨_, rfl, refuses holds₁⟩
      rw [ensure_eq_ok.mpr allowed]
      refine ensures_check_then (fun apart' => ?_) fun same' => ?_
      swap
      · rw [ensure_fails same']
        exact ⟨_, rfl, refuses holds₁⟩
      rw [ensure_eq_ok.mpr apart']
      refine Ensures.bind.mpr (Ensures.onError.mpr ((vGetVnode_ensures holds₁ (room_newfileptr old new _ _)).mono
        (fun _ s₂ taken => ?_) fun e s₂ stopped => ?_))
      swap
      · obtain ⟨unused, rfl, holds₂⟩ := stopped
        rw [ensure_fails unused]
        exact ⟨_, rfl, refuses_offline holds₂⟩
      obtain ⟨inUse', holds₂⟩ := taken
      rw [ensure_eq_ok.mpr inUse']
      rw [atFiles_newfileptr] at holds₂
      refine Ensures.bind.mpr (Ensures.onError.mpr (ensures_check.mpr ⟨fun _ => ?_, fun other => absurd same other⟩))
      refine ensures_check_then (fun kind => ?_) fun wrong => ?_
      swap
      · rw [ensure_fails wrong]
        exact ⟨_, rfl, refuses holds₂⟩
      rw [ensure_eq_ok.mpr kind]
      refine ensures_check_then (fun empty => ?_) fun full => ?_
      swap
      · rw [ensure_fails full]
        exact ⟨_, rfl, refuses holds₂⟩
      rw [ensure_eq_ok.mpr empty]
      refine ensures_check_then (fun kind' => ?_) fun wrong => ?_
      · rw [ensure_eq_ok.mpr kind']
        exact ⟨rfl, holds₂⟩
      · rw [ensure_fails wrong]
        exact ⟨_, rfl, refuses holds₂⟩

theorem walk_ensures {file : Nat} {fileptr newfileptr : Option Nat} (passes : Nat) :
    ∀ {forpass vnum testnode : Nat} {top : Bool} {s : Session}, s.Holds v true (atFiles old new fileptr newfileptr) →
      Ensures (Act.walk old new file newFile passes forpass vnum testnode top)
        (fun _ s' => v.walk old new file newFile passes forpass vnum testnode top = .ok () ∧
          s'.Holds v true (atFiles old new fileptr newfileptr))
        (fun e s' => ∃ refusal, v.walk old new file newFile passes forpass vnum testnode top = .error refusal ∧
          Ends true (v.refuse refusal) e s') s := by
  induction passes with
  | zero => exact fun holds => ⟨_, rfl, refuses holds⟩
  | succ passes ih =>
    intro forpass vnum testnode top s holds
    unfold Act.walk Volume.walk
    refine Ensures.get_then ?_
    rw [holds.volume]
    dsimp only
    split
    · exact ⟨rfl, holds⟩
    split
    · exact ⟨_, rfl, refuses holds⟩
    split
    · exact ih holds
    split
    · exact ⟨_, rfl, refuses holds⟩
    refine Ensures.bind.mpr (Ensures.onError.mpr (ensures_check.mpr ⟨fun inUse => ?_, fun unused => ?_⟩))
    swap
    · rw [if_pos unused]
      exact ⟨_, rfl, refuses_offline holds⟩
    rw [if_neg (not_not_intro inUse)]
    refine Ensures.bind.mpr ((Ensures.modify _).mpr ?_)
    have passed : Session.Holds { s with taken := .vnode testnode ::ₘ s.taken, putBack := .vnode testnode ::ₘ s.putBack } v true
        (atFiles old new fileptr newfileptr) := by
      refine ⟨holds.volume, holds.volptr, holds.ptr, holds.delete, ?_⟩
      show .vnode testnode ::ₘ s.taken = .vnode testnode ::ₘ s.putBack + refs s.volptr s.ptr
      rw [holds.books, Multiset.cons_add]
    refine Ensures.bind.mpr (Ensures.onError.mpr (ensures_check.mpr ⟨fun fine => ?_, fun loose => ?_⟩))
    · rw [if_neg fine]
      exact ih passed
    · rw [if_pos (not_not.mp loose)]
      exact ⟨_, rfl, refuses_offline passed⟩

theorem rename_eq (v : Volume) (oldDir : Fid) (oldName : Name) (newDir : Fid) (newName : Name) (fate : CallFate) :
    v.rename oldDir oldName newDir newName fate = if ¬ fileNameOK newName then (v, einval)
      else if Tree.Dots oldName ∨ Tree.Dots newName ∨ newName = [] ∨ oldName = [] then (v, einval)
      else if v.renamePackages oldDir newDir fate.check ≠ 0 then (v, v.renamePackages oldDir newDir fate.check)
      else
        andThen (v.copyIfCloned oldDir.vnode fate) fun v =>
        andThen (v.copyIfCloned newDir.vnode fate) fun v =>
        match v.renameChecks oldDir.vnode newDir.vnode oldName newName fate.replaceCheck with
        | .error refusal => v.refuse refusal
        | .ok (fileFid, newFileFid) =>
          andThen (if (v.vnode fileFid.vnode).type = .directory then v.copyIfCloned fileFid.vnode fate else (v, 0)) fun v =>
          (newFileFid.elim v fun fid => v.replaceTarget newDir.vnode newName fid.vnode).moveEntry oldDir.vnode oldName newDir
            newName fileFid fate := by
  have proceeds {r : Volume × Int} (success : r.2 = 0) : Volume.proceed r = .ok r.1 := if_pos success
  have stops {r : Volume × Int} (failure : r.2 ≠ 0) : Volume.proceed r = .error r := if_neg failure
  unfold Volume.rename Volume.renamePrepare
  by_cases ok : fileNameOK newName = true
  swap
  · rw [ensure_fails ok, if_pos ok]
    rfl
  rw [ensure_eq_ok.mpr ok, if_neg (not_not_intro ok)]
  by_cases plain : Tree.Dots oldName ∨ Tree.Dots newName ∨ newName = [] ∨ oldName = []
  · rw [ensure_fails (not_not_intro plain), if_pos plain]
    rfl
  rw [ensure_eq_ok.mpr plain, if_neg plain]
  by_cases passed : v.renamePackages oldDir newDir fate.check = 0
  swap
  · rw [ensure_fails passed, if_pos passed]
    rfl
  rw [ensure_eq_ok.mpr passed, if_neg (not_not_intro passed)]
  by_cases first : (v.copyIfCloned oldDir.vnode fate).2 = 0
  swap
  · rw [stops first, andThen, if_neg first]
    rfl
  rw [proceeds first, andThen, if_pos first]
  generalize (v.copyIfCloned oldDir.vnode fate).1 = v₁
  dsimp only [Bind.bind, Except.bind]
  by_cases second : (v₁.copyIfCloned newDir.vnode fate).2 = 0
  swap
  · rw [stops second, andThen, if_neg second]
  rw [proceeds second, andThen, if_pos second]
  generalize (v₁.copyIfCloned newDir.vnode fate).1 = v₂
  dsimp only
  cases v₂.renameChecks oldDir.vnode newDir.vnode oldName newName fate.replaceCheck with
  | error refusal => rfl
  | ok found =>
    obtain ⟨fileFid, newFileFid⟩ := found
    dsimp only [Except.mapError]
    by_cases third : (if (v₂.vnode fileFid.vnode).type = .directory then v₂.copyIfCloned fileFid.vnode fate else (v₂, 0)).2 = 0
    · rw [proceeds third, andThen, if_pos third]
    · rw [stops third, andThen, if_neg third]

theorem Serves.blindStep (tidy : s.Tidy rename) (blind : ∀ v u, f { v with used := u } = ({ (f v).1 with used := u }, (f v).2))
    (passes : ∀ s', s'.Tidy rename → s'.final = (f s.final).1 → Serves rename (rest ()) (next (f s.final).1) s') :
    Serves rename (Act.step f >>= rest) (andThen (f s.final) next) s := by
  have kept := congrArg (fun r => r.1.used) (blind s.volume s.volume.used)
  have same : (f s.volume).1.used = s.volume.used := kept
  have after : f s.final = (Session.final { s with volume := (f s.volume).1 }, (f s.volume).2) := by
    unfold Session.final
    rw [blind]
    rw [same]
  have tidy' : Session.Tidy rename { s with volume := (f s.volume).1 } := ⟨tidy.books, tidy.delete, tidy.own⟩
  rw [after] at passes ⊢
  refine Ensures.bind.mpr (ensures_step.mpr ⟨fun success => ?_, fun failure => ?_⟩)
  · rw [andThen, if_pos success]
    exact passes _ tidy' rfl
  · rw [andThen, if_neg failure]
    exact ⟨tidy', Agrees.of_final rfl⟩

theorem Serves.blindChange {f : Volume → Volume} (tidy : s.Tidy rename) (blind : Blind f)
    (passes : ∀ s', s'.Tidy rename → s'.final = f s.final → Serves rename (rest ()) r s') :
    Serves rename (Act.change f >>= rest) r s := passes _ (tidy.change f) blind.final

theorem createEntry_blind (d : Nat) (code : Int) (v : Volume) (u : Finset Nat) :
    Volume.createEntry { v with used := u } d name fid code =
      ({ (v.createEntry d name fid code).1 with used := u }, (v.createEntry d name fid code).2) := by
  unfold Volume.createEntry Volume.setVnode
  split
  · rfl
  split
  · rfl
  split <;> rfl

theorem setParent_blind (old : Nat) (newDir : Fid) : Blind fun v => v.setParent old newDir fid where
  used v u := by
    unfold Volume.setParent Volume.setLinkCount Volume.setVnode
    dsimp only
    split
    · split <;> rfl
    · rfl

theorem replaceTarget_ensures (holds : s.Holds v true (atFiles old new file (some n))) :
    Ensures (Act.replaceTarget new newName n) (fun _ s' => s'.Tidy true ∧ s'.final = v.replaceTarget new newName n)
      (fun _ _ => False) s := by
  unfold Act.replaceTarget Volume.replaceTarget
  have own := atFiles_own old new file (some n)
  have lowered := (holds.change (f := fun v => v.deleteEntry new newName) rfl).change
    (f := fun v => v.setLinkCount n ((v.vnode n).linkCount - 1)) rfl
  refine Ensures.bind.mpr (Ensures.bind.mpr ?_)
  show Ensures (_ >>= _) _ _
    ((s.change fun v => v.deleteEntry new newName).change fun v => v.setLinkCount n ((v.vnode n).linkCount - 1))
  dsimp only
  generalize (s.change _).change _ = s₁ at lowered ⊢
  generalize Volume.setLinkCount _ n _ = v₁ at lowered ⊢
  obtain rfl := lowered.volume
  refine Ensures.get_then (Ensures.whenever.mpr ⟨fun last => ?_, fun more => ?_⟩)
  · rw [if_pos last]
    generalize s₁.volume.vnode n = vn
    have gone := lowered.change
      (f := fun v => ((v.vAdjustDiskUsage (-nBlocks vn.length) 0).1.decInode vn.inode).setVnode n { vn with inode := 0 }) rfl
    exact ⟨gone.marked (p := .newfileptr) rfl own, gone.mark_final n⟩
  · rw [if_neg more]
    exact ⟨lowered.tidy own, lowered.final⟩

theorem rename_serves {oldDir newDir : Fid} {oldName : Name} (holds : s.Holds v false fun _ => none) :
    Serves true (Act.rename oldDir oldName newDir newName fate) (v.rename oldDir oldName newDir newName fate) s := by
  rw [rename_eq]
  have empty := @Session.Holds.none_own true
  refine Serves.check (holds.tidy empty) (fun bad => ?_) fun ok => ?_
  · rw [if_pos bad, holds.final]
  rw [if_neg (not_not_intro ok)]
  refine Serves.check (holds.tidy empty) (fun bad => ?_) fun plain => ?_
  · rw [if_pos (not_not.mp bad), holds.final]
  rw [if_neg plain]
  refine (renamePackages_ensures fate.check holds).mono_then (fun _ s₁ after => ?_) fun e s₁ stopped => ?_
  swap
  · obtain ⟨refused, rfl, tidy, final⟩ := stopped
    rw [if_pos refused]
    exact ⟨tidy, Agrees.of_final final⟩
  obtain ⟨code, holds₁⟩ := after
  rw [code]
  have own := atDirs_own oldDir.vnode newDir.vnode
  refine Serves.check (holds₁.tidy own) (fun refused => ?_) fun allowed => ?_
  · rw [if_pos refused, holds₁.final]
  rw [if_neg (not_not_intro allowed)]
  refine Serves.step holds₁ own fun s₂ holds₂ _ => Serves.step holds₂ own fun s₃ holds₃ _ => ?_
  generalize ((v.copyIfCloned oldDir.vnode fate).1.copyIfCloned newDir.vnode fate).1 = w at holds₃ ⊢
  rw [← atFiles_none] at holds₃
  unfold Volume.renameChecks
  refine (renameLookup_ensures holds₃).mono_then (fun found s₄ after => ?_) fun e s₄ stopped => ?_
  swap
  · obtain ⟨refusal, refused, ends⟩ := stopped
    rw [refused]
    exact ends
  obtain ⟨found', holds₄⟩ := after
  rw [found']
  obtain ⟨fileFid, newFileFid⟩ := found
  refine Ensures.get_then ?_
  rw [holds₄.volume]
  dsimp only [Bind.bind, Except.bind] at holds₄ ⊢
  have own := atFiles_own oldDir.vnode newDir.vnode (some fileFid.vnode) (newFileFid.map Fid.vnode)
  -- the walk
  have walked : Ensures
      (whenever (oldDir.vnode ≠ newDir.vnode ∧ (w.vnode fileFid.vnode).type = .directory)
        (Act.walk oldDir.vnode newDir.vnode fileFid.vnode (newFileFid.map Fid.vnode) (w.used.sup id + 3) 0 0
          (w.vnode newDir.vnode).parent false))
      (fun _ s' => w.renameWalk oldDir.vnode newDir.vnode fileFid.vnode (newFileFid.map Fid.vnode) = .ok () ∧
        s'.Holds w true (atFiles oldDir.vnode newDir.vnode (some fileFid.vnode) (newFileFid.map Fid.vnode)))
      (fun e s' => ∃ refusal, w.renameWalk oldDir.vnode newDir.vnode fileFid.vnode (newFileFid.map Fid.vnode) = .error refusal ∧
          Ends true (w.refuse refusal) e s') s₄ := by
    unfold Volume.renameWalk
    refine Ensures.whenever.mpr ⟨fun moves => ?_, fun stays => ?_⟩
    · rw [if_pos moves]
      exact walk_ensures _ holds₄
    · rw [if_neg stays]
      exact ⟨rfl, holds₄⟩
  refine walked.mono_then (fun _ s₅ after => ?_) fun e s₅ stopped => ?_
  swap
  · obtain ⟨refusal, refused, ends⟩ := stopped
    rw [refused]
    exact ends
  obtain ⟨passed, holds₅⟩ := after
  rw [passed]
  dsimp only
  -- the copy of the directory that moves
  have copied : Ensures (whenever ((w.vnode fileFid.vnode).type = .directory)
      (Act.step fun v => v.copyIfCloned fileFid.vnode fate))
      (fun _ s' => (if (w.vnode fileFid.vnode).type = .directory then w.copyIfCloned fileFid.vnode fate else (w, 0)).2 = 0 ∧
        s'.Holds (if (w.vnode fileFid.vnode).type = .directory then w.copyIfCloned fileFid.vnode fate else (w, 0)).1 true
          (atFiles oldDir.vnode newDir.vnode (some fileFid.vnode) (newFileFid.map Fid.vnode)))
      (fun e s' => (if (w.vnode fileFid.vnode).type = .directory then w.copyIfCloned fileFid.vnode fate else (w, 0)).2 ≠ 0 ∧
        Ends true (if (w.vnode fileFid.vnode).type = .directory then w.copyIfCloned fileFid.vnode fate else (w, 0)) e s') s₅ := by
    obtain rfl := holds₅.volume
    refine Ensures.whenever.mpr ⟨fun isDir => ?_, fun other => ?_⟩
    · rw [if_pos isDir]
      have after : Session.Holds { s₅ with volume := (s₅.volume.copyIfCloned fileFid.vnode fate).1 } _ true _ :=
        ⟨rfl, holds₅.volptr, holds₅.ptr, holds₅.delete, holds₅.books⟩
      exact ensures_step.mpr ⟨fun success => ⟨success, after⟩,
        fun failure => ⟨failure, after.tidy own, Agrees.of_final after.final⟩⟩
    · rw [if_neg other]
      exact ⟨rfl, holds₅⟩
  refine copied.mono_then (fun _ s₆ after => ?_) fun e s₆ stopped => ?_
  swap
  · rw [andThen, if_neg stopped.1]
    exact stopped.2
  obtain ⟨success, holds₆⟩ := after
  rw [andThen, if_pos success]
  generalize (if (w.vnode fileFid.vnode).type = .directory then w.copyIfCloned fileFid.vnode fate else (w, 0)).1 = w₁
    at holds₆ ⊢
  -- the entries move
  have moves (s' : Session) (tidy : s'.Tidy true) (v' : Volume) (final : s'.final = v') : Serves true
      (Act.step (fun v => v.createEntry newDir.vnode newName fileFid fate.createCode) >>= fun _ =>
        Act.change (fun v => v.deleteEntry oldDir.vnode oldName) >>= fun _ =>
        Act.change (fun v => v.updateParentVnodeStatus oldDir.vnode (v.vnode oldDir.vnode).linkCount fate) >>= fun _ =>
        Act.change (fun v => v.updateParentVnodeStatus newDir.vnode (v.vnode newDir.vnode).linkCount fate) >>= fun _ =>
        Act.change fun v => v.setParent oldDir.vnode newDir fileFid)
      (v'.moveEntry oldDir.vnode oldName newDir newName fileFid fate) s' := by
    subst final
    unfold Volume.moveEntry
    refine Serves.blindStep (f := fun v => v.createEntry newDir.vnode newName fileFid fate.createCode) tidy
      (createEntry_blind newDir.vnode fate.createCode) fun s₁ tidy₁ final₁ => ?_
    refine Serves.blindChange tidy₁ ⟨fun _ _ => rfl⟩ fun s₂ tidy₂ final₂ => ?_
    refine Serves.blindChange tidy₂ (updateParentVnodeStatus_blind oldDir.vnode id) fun s₃ tidy₃ final₃ => ?_
    refine Serves.blindChange tidy₃ (updateParentVnodeStatus_blind newDir.vnode id) fun s₄ tidy₄ final₄ => ?_
    refine Serves.last tidy₄ ((setParent_blind oldDir.vnode newDir).final.trans ?_)
    rw [final₄, final₃, final₂, final₁]
  cases newFileFid with
  | none => exact moves s₆ (holds₆.tidy own) w₁ holds₆.final
  | some newFid =>
    refine (replaceTarget_ensures holds₆).mono_then (fun _ s₇ after => ?_) fun _ _ stopped => stopped.elim
    exact moves s₇ after.1 _ after.2

theorem safss_served (v : Volume) (fate : CallFate) (call : Call) : Served (v.call fate call) (safss v fate call) := by
  have start := start_holds v
  cases call with
  | createFile dir name => exact (createFile_serves start).served fun _ => bad_settles
  | makeDir dir name => exact (makeDir_serves start).served fun _ => bad_settles
  | symlink dir name contents => exact (symlink_serves start).served fun _ => bad_settles
  | link dir name existing => exact (link_serves start).served fun _ => bad_settles
  | removeFile dir name => exact (removeFile_serves start).served fun _ => bad_settles
  | removeDir dir name => exact (removeDir_serves start).served fun _ => bad_settles
  | rename oldDir oldName newDir newName => exact (rename_serves start).served fun _ => badRename_settles

end OpenAFS.Viced
