import Mathlib.Data.List.Basic
import Mathlib.Tactic.IntervalCases

namespace OpenAFS.Viced.Hosts

open List

abbrev HostId := Nat

structure Thread where
  lwpIndex : Nat

def Thread.holdSlot (th : Thread) : Nat := th.lwpIndex / 32
def Thread.holdBit (th : Thread) : UInt32 := 1 <<< UInt32.ofNat (th.lwpIndex % 32)

structure Client where
  deleted : Bool
  locked : Bool
  refCount : Int
  deriving DecidableEq, Repr

def hostDeleted : UInt16 := 0x10
def clientDeleted : UInt16 := 0x20

structure Host where
  holds : Nat → UInt32
  hostFlags : UInt16
  locked : Bool
  clients : List Client

structure HostTable where
  hostCount : Nat
  hostList : List HostId
  host : HostId → Host

def hMaxSlots : Nat := 5

namespace HostTable

variable (th : Thread) (t : HostTable) (q : HostId)

def set (host : Host) : HostTable := { t with host := Function.update t.host q host }

def next : Option HostId := (t.hostList.dropWhile (· ≠ q)).tail.head?

def held : UInt32 := if th.holdBit &&& (t.host q).holds th.holdSlot ≠ 0 then 1 else 0

def setHolds (holds : UInt32) : HostTable :=
  t.set q { t.host q with holds := Function.update (t.host q).holds th.holdSlot holds }

def hold : HostTable := t.setHolds th q ((t.host q).holds th.holdSlot ||| th.holdBit)

def otherHolds : Bool :=
  (List.range hMaxSlots).any fun i => (t.host q).holds i ≠ if i = th.holdSlot then th.holdBit else 0

end HostTable

/-- The loop of `h_TossStuff_r` over the clients, which ends at the first one that is in use: what is left, and whether that is all
    that is done. -/
def tossClients (all : Bool) : List Client → List Client × Bool
  | [] => ([], false)
  | client :: rest =>
    if all ∨ client.deleted then
      if client.locked then (client :: rest, true)
      else if client.refCount ≠ 0 then (client :: rest, true)
      else tossClients all rest
    else
      let (rest, stopped) := tossClients all rest
      (client :: rest, stopped)

namespace HostTable

variable (th : Thread) (t : HostTable) (q : HostId)

def tossStuff : HostTable :=
  let host := t.host q
  if (List.range hMaxSlots).any fun i => host.holds i ≠ 0 then t
  else if host.locked then t
  else
    let (clients, stopped) := tossClients (host.hostFlags &&& hostDeleted ≠ 0) host.clients
    let host := { host with clients }
    if stopped then t.set q host
    else
      let host := { host with hostFlags := host.hostFlags &&& ~~~clientDeleted }
      let t := t.set q host
      if host.hostFlags &&& hostDeleted ≠ 0 then { t with hostCount := t.hostCount - 1, hostList := t.hostList.erase q } else t

def release : HostTable :=
  let cleared := t.setHolds th q ((t.host q).holds th.holdSlot &&& ~~~th.holdBit)
  if (t.host q).holds th.holdSlot &&& ~~~th.holdBit = 0 then
    if ¬t.otherHolds th q then
      if (cleared.host q).hostFlags &&& hostDeleted ≠ 0 ∨ (cleared.host q).hostFlags &&& clientDeleted ≠ 0 then
        cleared.tossStuff q
      else cleared
    else cleared
  else cleared

end HostTable

/-- `H_ENUMERATE_ISSET_BAIL` and `H_ENUMERATE_ISSET_HELD`. -/
def issetBail (held : UInt32) : Bool := held &&& 0x80000000 ≠ 0
def issetHeld (held : UInt32) : Bool := held &&& 0x7FFFFFFF ≠ 0

/-- A procedure: what it returns, and what it does or lets other threads do meanwhile, which keeps the list and the holds of the
    thread. A host is visited only once, so that the answer may be taken as a function of the host and of its hold state. -/
structure Procedure (th : Thread) where
  answer : HostId → UInt32 → UInt32
  act : HostId → HostTable → HostTable
  hostList : ∀ q t, (act q t).hostList = t.hostList
  kept : ∀ q t r, (act q t).held th r = t.held th r

abbrev Calls := List (HostId × UInt32)

def HostTable.giveBack (th : Thread) (t : HostTable) (q : HostId) (held : UInt32) : HostTable :=
  if ¬issetHeld held then t.release th q else t

/-- How an enumeration ends; `pending` means that the given number of turns is not enough. -/
inductive Outcome where
  | finished (calls : Calls) (t : HostTable)
  | nullHost
  | assertion
  | pending

namespace HostTable

def holdAll (th : Thread) : List HostId → HostTable → List (HostId × UInt32) × HostTable
  | [], t => ([], t)
  | q :: rest, t =>
    let held := t.held th q
    let (list, t) := holdAll th rest (if held = 0 then t.hold th q else t)
    ((q, held) :: list, t)

variable {th : Thread} (proc : Procedure th)

def callAll : List (HostId × UInt32) → HostTable → Calls × HostTable
  | [], t => ([], t)
  | (q, held) :: rest, t =>
    let held := proc.answer q held
    let t := (proc.act q t).giveBack th q held
    if issetBail held then ([(q, held)], t)
    else
      let (calls, t) := callAll rest t
      ((q, held) :: calls, t)

def enumerate (t : HostTable) : Outcome :=
  if t.hostCount = 0 then .finished [] t
  else
    let (list, t) := holdAll th t.hostList t
    if list.length ≤ t.hostCount then
      let (calls, t) := callAll proc list t
      .finished calls t
    else .assertion

/-- The loop of `h_Enumerate_r`. `nheld` keeps what it was where there is no next host. -/
def enumerateLoop : (turns : Nat) → Option HostId → (held nheld : UInt32) → Calls → HostTable → Outcome
  | _, none, _, _, calls, t => .finished calls t
  | 0, some _, _, _, _, _ => .pending
  | turns + 1, some q, held, nheld, calls, t =>
    let next := t.next q
    let nheld : UInt32 := match next with
      | some n => t.held th n
      | none => nheld
    let t : HostTable := match next with
      | some n => if nheld = 0 ∧ ¬issetBail held then t.hold th n else t
      | none => t
    let held := proc.answer q held
    let t := (proc.act q t).giveBack th q held
    let calls := calls ++ [(q, held)]
    if issetBail held then
      if ¬issetHeld nheld then
        match next with
        | some n => .finished calls (t.release th n)
        | none => .nullHost
      else .finished calls t
    else enumerateLoop turns next nheld nheld calls t

def enumerateR (enumstart : Option HostId) (t : HostTable) : Outcome :=
  if t.hostCount = 0 then .finished [] t
  else
    match enumstart with
    | none => .finished [] t
    | some q =>
      let held := t.held th q
      let t := if held = 0 then t.hold th q else t
      enumerateLoop proc t.hostList.length (some q) held 0 [] t

end HostTable

theorem Thread.holdBit_ne_zero (th : Thread) : th.holdBit ≠ 0 := by
  have all : ∀ k < 32, (1 : UInt32) <<< UInt32.ofNat k ≠ 0 := by decide
  exact all _ (Nat.mod_lt _ (by decide))

theorem bit_or (bits bit : UInt32) : bit &&& (bits ||| bit) = bit := by
  apply UInt32.toBitVec_inj.1
  apply BitVec.eq_of_getLsbD_eq
  intro i _
  simp
  grind

theorem bit_clear (bits bit : UInt32) : bit &&& (bits &&& ~~~bit) = 0 := by
  apply UInt32.toBitVec_inj.1
  apply BitVec.eq_of_getLsbD_eq
  intro i _
  simp
  grind

namespace HostTable

def Held (th : Thread) (t : HostTable) (q : HostId) : Prop := t.held th q ≠ 0

instance (th : Thread) (t : HostTable) (q : HostId) : Decidable (t.Held th q) := inferInstanceAs (Decidable (_ ≠ _))

variable {th : Thread} {t : HostTable} {q r : HostId}

theorem held_iff : t.Held th q ↔ th.holdBit &&& (t.host q).holds th.holdSlot ≠ 0 := by
  unfold Held held
  split
  · next some => exact iff_of_true (by decide) some
  · next none => exact iff_of_false (not_not.2 rfl) none

theorem host_set (host : Host) : (t.set q host).host r = if r = q then host else t.host r := Function.update_apply ..

theorem holds_setHolds (holds : UInt32) :
    ((t.setHolds th q holds).host r).holds th.holdSlot = if r = q then holds else (t.host r).holds th.holdSlot := by
  unfold setHolds
  rw [host_set]
  split
  · exact Function.update_self ..
  · rfl

theorem hold_held : (t.hold th q).Held th r ↔ r = q ∨ t.Held th r := by
  rw [held_iff, held_iff, hold, holds_setHolds]
  split
  · next same => exact iff_of_true (by rw [bit_or]; exact th.holdBit_ne_zero) (.inl same)
  · next other => rw [or_iff_right other]

theorem holdIf_held {c : Prop} [Decidable c] (only : ¬c → t.Held th q) :
    (if c then t.hold th q else t).Held th r ↔ r = q ∨ t.Held th r := by
  split
  · exact hold_held
  · next skipped => exact ⟨.inr, fun either => either.elim (fun same => same ▸ only skipped) id⟩

theorem holdIf_hostList {c : Prop} [Decidable c] : (if c then t.hold th q else t).hostList = t.hostList := by
  split <;> rfl

theorem tossStuff_holds : ((t.tossStuff q).host r).holds = (t.host r).holds := by
  have kept (u : HostTable) (host : Host) (same : host.holds = (u.host q).holds) :
      ((u.set q host).host r).holds = (u.host r).holds := by
    rw [host_set]
    split
    · next here => rw [here, same]
    · rfl
  unfold tossStuff
  dsimp only
  split
  · rfl
  split
  · rfl
  · split
    · exact kept t _ rfl
    · split <;> exact kept t _ rfl

theorem tossStuff_hostList : (t.tossStuff q).hostList = t.hostList ∨ (t.tossStuff q).hostList = t.hostList.erase q := by
  unfold tossStuff
  dsimp only
  split
  · exact .inl rfl
  split
  · exact .inl rfl
  split
  · exact .inl rfl
  · split
    · exact .inr rfl
    · exact .inl rfl

theorem release_cases (th : Thread) (t : HostTable) (q : HostId) :
    ∃ cleared : HostTable, cleared = t.setHolds th q ((t.host q).holds th.holdSlot &&& ~~~th.holdBit) ∧
      (t.release th q = cleared ∨ t.release th q = cleared.tossStuff q) := by
  refine ⟨_, rfl, ?_⟩
  unfold release
  dsimp only
  split
  · split
    · split
      · exact .inr rfl
      · exact .inl rfl
    · exact .inl rfl
  · exact .inl rfl

theorem release_held : (t.release th q).Held th r ↔ r ≠ q ∧ t.Held th r := by
  obtain ⟨cleared, eq, released⟩ := release_cases th t q
  have holds : ((t.release th q).host r).holds = (cleared.host r).holds := by
    rcases released with same | tossed
    · rw [same]
    · rw [tossed, tossStuff_holds]
  rw [held_iff, held_iff, holds, eq, holds_setHolds]
  split
  · next here => exact iff_of_false (by rw [bit_clear]; exact not_not.2 rfl) fun both => both.1 here
  · next other => rw [and_iff_right other]

theorem release_hostList : (t.release th q).hostList = t.hostList ∨ (t.release th q).hostList = t.hostList.erase q := by
  obtain ⟨cleared, rfl, same | tossed⟩ := release_cases th t q
  · rw [same]
    exact .inl rfl
  · rw [tossed]
    exact tossStuff_hostList

theorem held_congr {u : HostTable} (same : t.Held th q ↔ u.Held th q) : t.held th q = u.held th q := by
  have zero_or_one (t : HostTable) : t.held th q = 0 ∨ t.held th q = 1 := by
    unfold held
    split
    · exact .inr rfl
    · exact .inl rfl
  unfold Held at same
  rcases zero_or_one t with first | first <;> rcases zero_or_one u with second | second <;> simp [first, second] at same ⊢

end HostTable

/-- The calls for hosts in the order of a list, up to the first answer to bail out. -/
def answers (answer : HostId → UInt32) : List HostId → Calls
  | [] => []
  | q :: rest => if issetBail (answer q) then [(q, answer q)] else (q, answer q) :: answers answer rest

theorem mem_of_mem_answers {answer : HostId → UInt32} {list : List HostId} {q : HostId} {held : UInt32}
    (called : (q, held) ∈ answers answer list) : q ∈ list ∧ held = answer q := by
  induction list with
  | nil => cases called
  | cons r list ih =>
    rw [answers] at called
    split at called
    · cases List.mem_singleton.1 called
      exact ⟨mem_cons_self, rfl⟩
    rcases List.mem_cons.1 called with first | later
    · cases first
      exact ⟨mem_cons_self, rfl⟩
    · exact ⟨mem_cons_of_mem r (ih later).1, (ih later).2⟩

theorem head_called (answer : HostId → UInt32) (q : HostId) (rest : List HostId) : ∃ a, (q, a) ∈ answers answer (q :: rest) := by
  rw [answers]
  split
  · exact ⟨_, mem_cons_self⟩
  · exact ⟨_, mem_cons_self⟩

def BailsAtEnd (answer : HostId → UInt32) : List HostId → Prop
  | [] => False
  | [q] => issetBail (answer q)
  | q :: rest => ¬issetBail (answer q) ∧ BailsAtEnd answer rest

namespace HostTable

variable {th : Thread} {proc : Procedure th} {t : HostTable} {q r : HostId} {a : UInt32}

theorem visit_held (proc : Procedure th) (t : HostTable) (q r : HostId) (a : UInt32) :
    (((proc.act q t).giveBack th q a).Held th r) ↔ t.Held th r ∧ (r = q → issetHeld a) := by
  have kept : (proc.act q t).Held th r ↔ t.Held th r := by
    unfold Held
    rw [proc.kept]
  unfold giveBack
  split
  · next dropped =>
    rw [release_held, kept, and_comm]
    exact and_congr_right fun _ => ⟨fun other same => absurd same other, fun all same => dropped (all same)⟩
  · next held =>
    rw [kept, and_iff_left fun _ => by simpa using held]

theorem visit_hostList (proc : Procedure th) (t : HostTable) (q : HostId) (a : UInt32) :
    ((proc.act q t).giveBack th q a).hostList = t.hostList ∨ ((proc.act q t).giveBack th q a).hostList = t.hostList.erase q := by
  rw [← proc.hostList q t]
  unfold giveBack
  split
  · exact release_hostList
  · exact .inl rfl

variable {list before rest : List HostId}

theorem holdAll_eq (th : Thread) {t : HostTable} (distinct : list.Nodup) :
    ∃ after, holdAll th list t = (list.map fun q => (q, t.held th q), after) ∧ after.hostCount = t.hostCount ∧
      ∀ r, after.Held th r ↔ r ∈ list ∨ t.Held th r := by
  induction list generalizing t with
  | nil => exact ⟨t, rfl, rfl, fun r => (or_iff_right not_mem_nil).symm⟩
  | cons q list ih =>
    obtain ⟨outside, distinct⟩ := List.nodup_cons.1 distinct
    have held_next (r : HostId) := holdIf_held (r := r) (c := t.held th q = 0) id
    obtain ⟨after, run, count, all⟩ := ih (t := if t.held th q = 0 then t.hold th q else t) distinct
    have flags : (list.map fun r => (r, (if t.held th q = 0 then t.hold th q else t).held th r)) =
        list.map fun r => (r, t.held th r) := by
      refine map_congr_left fun r member => ?_
      have other : r ≠ q := fun same => outside (same ▸ member)
      rw [held_congr ((held_next r).trans (or_iff_right other))]
    refine ⟨after, ?_, count.trans (by split <;> rfl), fun r => ?_⟩
    · rw [holdAll]
      rw [run, flags]
      rfl
    · rw [all, held_next, mem_cons, or_left_comm, or_assoc]

theorem callAll_eq (proc : Procedure th) (flag : HostId → UInt32) {t : HostTable} (distinct : list.Nodup) :
    ∃ after, callAll proc (list.map fun q => (q, flag q)) t = (answers (fun q => proc.answer q (flag q)) list, after) ∧
      ∀ r, after.Held th r ↔ t.Held th r ∧ ∀ a, (r, a) ∈ answers (fun q => proc.answer q (flag q)) list → issetHeld a := by
  induction list generalizing t with
  | nil => exact ⟨t, rfl, fun r => (and_iff_left fun _ none => absurd none not_mem_nil).symm⟩
  | cons q list ih =>
    obtain ⟨outside, distinct⟩ := List.nodup_cons.1 distinct
    obtain ⟨after, run, all⟩ := ih (t := (proc.act q t).giveBack th q (proc.answer q (flag q))) distinct
    rw [map_cons, callAll, answers]
    by_cases bail : issetBail (proc.answer q (flag q)) = true
    · rw [if_pos bail, if_pos bail]
      refine ⟨_, rfl, fun r => ?_⟩
      rw [visit_held]
      refine and_congr_right fun _ => ⟨fun all a called => ?_, fun all same => all _ (same ▸ mem_cons_self)⟩
      cases List.mem_singleton.1 called
      exact all rfl
    rw [if_neg bail, if_neg bail, run]
    refine ⟨after, rfl, fun r => ?_⟩
    rw [all, visit_held, and_assoc]
    refine and_congr_right fun _ => ⟨fun both a called => ?_, fun all => ⟨fun same => ?_, fun a later => ?_⟩⟩
    · rcases List.mem_cons.1 called with first | later
      · cases first
        exact both.1 rfl
      · exact both.2 a later
    · exact all _ (same ▸ mem_cons_self)
    · exact all a (mem_cons_of_mem _ later)

theorem dropWhile_eq (list : t.hostList = before ++ q :: rest) (distinct : t.hostList.Nodup) :
    t.hostList.dropWhile (· ≠ q) = q :: rest := by
  rw [list] at distinct
  have outside : ∀ r ∈ before, decide (r ≠ q) = true := fun r member => by
    rw [decide_eq_true_eq]
    rintro rfl
    exact (List.nodup_append.1 distinct).2.2 r member r mem_cons_self rfl
  rw [list, dropWhile_append_of_pos outside, dropWhile_cons_of_neg (by simp)]

theorem next_eq (list : t.hostList = before ++ q :: rest) (distinct : t.hostList.Nodup) : t.next q = rest.head? := by
  unfold next
  rw [dropWhile_eq list distinct]
  rfl

theorem visit_behind (proc : Procedure th) (a : UInt32) (list : t.hostList = before ++ q :: rest) (distinct : t.hostList.Nodup) :
    ∃ before', ((proc.act q t).giveBack th q a).hostList = before' ++ rest ∧ ((proc.act q t).giveBack th q a).hostList.Nodup := by
  rcases visit_hostList proc t q a with same | erased
  · exact ⟨before ++ [q], by rw [same, list, append_assoc]; rfl, same ▸ distinct⟩
  refine ⟨before, ?_, erased ▸ distinct.erase q⟩
  rw [list] at distinct
  have outside : q ∉ before := fun member => (List.nodup_append.1 distinct).2.2 q member q mem_cons_self rfl
  rw [erased, list, erase_append_right _ outside, erase_cons_head]

theorem issetHeld_held : issetHeld (t.held th q) = true ↔ t.Held th q := by
  unfold Held held
  split <;> decide

theorem not_issetBail_held : ¬issetBail (t.held th q) := by
  unfold held
  split <;> decide

def Strands (answer flag : HostId → UInt32) (nheld : UInt32) : List HostId → Prop
  | [] => False
  | [q] => issetBail (answer q) ∧ ¬issetHeld nheld
  | q :: n :: rest => ¬issetBail (answer q) ∧ Strands answer flag (flag n) (n :: rest)

def Settled (th : Thread) (t after : HostTable) (calls : Calls) : Prop :=
  ∀ r, after.Held th r ↔ (t.Held th r ∨ ∃ a, (r, a) ∈ calls) ∧ ∀ a, (r, a) ∈ calls → issetHeld a

theorem settled_one {u : HostTable} (own : t.Held th q) (held : ∀ r, u.Held th r ↔ t.Held th r ∧ (r = q → issetHeld a)) :
    Settled th t u [(q, a)] := by
  intro r
  rw [held]
  constructor
  · rintro ⟨before, all⟩
    refine ⟨.inl before, fun b called => ?_⟩
    cases List.mem_singleton.1 called
    exact all rfl
  rintro ⟨before | ⟨b, called⟩, all⟩
  · exact ⟨before, fun same => all a (same ▸ mem_cons_self)⟩
  · cases List.mem_singleton.1 called
    exact ⟨own, fun _ => all a mem_cons_self⟩

theorem settled_cons {n : HostId} {u after : HostTable} {calls : Calls} (other : q ≠ n)
    (own : t.Held th q) (outside : ∀ b, (q, b) ∉ calls) (inside : ∃ b, (n, b) ∈ calls)
    (visited : ∀ r, u.Held th r ↔ (r = n ∨ t.Held th r) ∧ (r = q → issetHeld a)) (settled : Settled th u after calls) :
    Settled th t after ((q, a) :: calls) := by
  intro r
  rw [settled, visited]
  by_cases here : r = q
  · subst here
    have called (b : UInt32) : (r, b) ∈ (r, a) :: calls ↔ b = a := by
      rw [mem_cons, or_iff_left (outside b), Prod.mk.injEq, and_iff_right rfl]
    simp [called, outside, other, own]
  have called (b : UInt32) : (r, b) ∈ (q, a) :: calls ↔ (r, b) ∈ calls := by
    rw [mem_cons, or_iff_right fun same => here (congrArg Prod.fst same)]
  simp only [called, here, false_implies, and_true]
  refine and_congr_left fun _ => ?_
  constructor
  · rintro ((rfl | before) | some)
    · exact .inr inside
    · exact .inl before
    · exact .inr some
  · exact fun either => either.imp_left .inr

theorem enumerateLoop_eq {flag : HostId → UInt32} (proc : Procedure th) {turns : Nat} (nheld : UInt32) (calls : Calls)
    (enough : rest.length < turns) (list : t.hostList = before ++ q :: rest)
    (distinct : t.hostList.Nodup) (own : t.Held th q) (plain : ¬issetBail (flag q)) (flags : ∀ r ∈ rest, flag r = t.held th r) :
    (Strands (fun r => proc.answer r (flag r)) flag nheld (q :: rest) →
        enumerateLoop proc turns (some q) (flag q) nheld calls t = .nullHost) ∧
      (¬Strands (fun r => proc.answer r (flag r)) flag nheld (q :: rest) →
        ∃ after, enumerateLoop proc turns (some q) (flag q) nheld calls t =
            .finished (calls ++ answers (fun r => proc.answer r (flag r)) (q :: rest)) after ∧
          Settled th t after (answers (fun r => proc.answer r (flag r)) (q :: rest))) := by
  induction rest generalizing q t turns nheld calls before with
  | nil =>
    obtain ⟨turns, rfl⟩ : ∃ k, turns = k + 1 := ⟨turns - 1, by omega⟩
    have settled := settled_one own fun r => visit_held proc t q r (proc.answer q (flag q))
    rw [enumerateLoop, next_eq list distinct, answers]
    dsimp only [head?_nil]
    by_cases bail : issetBail (proc.answer q (flag q)) = true
    · rw [if_pos bail, if_pos bail]
      exact ⟨fun strands => if_pos strands.2, fun safe => ⟨_, if_neg fun stale => safe ⟨bail, stale⟩, settled⟩⟩
    · rw [if_neg bail, if_neg bail]
      exact ⟨fun strands => absurd strands.1 bail, fun _ => ⟨_, by rw [enumerateLoop]; rfl, settled⟩⟩
  | cons n rest ih =>
    obtain ⟨turns, rfl⟩ : ∃ k, turns = k + 1 := ⟨turns - 1, by omega⟩
    rw [enumerateLoop, next_eq list distinct, answers]
    dsimp only [head?_cons]
    have flag_n := flags n mem_cons_self
    simp only [← flag_n]
    generalize next_eq' : (if flag n = 0 ∧ ¬issetBail (flag q) = true then t.hold th n else t) = t'
    have held_next (r : HostId) : t'.Held th r ↔ r = n ∨ t.Held th r := by
      rw [← next_eq']
      refine holdIf_held fun skipped => ?_
      rw [Held, ← flag_n]
      exact fun zero => skipped ⟨zero, plain⟩
    have list' : t'.hostList = t.hostList := next_eq' ▸ holdIf_hostList
    have apart : q ≠ n ∧ q ∉ rest ∧ n ∉ rest := by
      rw [list] at distinct
      have tail := (List.nodup_append.1 distinct).2.1
      rw [nodup_cons, nodup_cons, mem_cons, not_or] at tail
      exact ⟨tail.1.1, tail.1.2, tail.2.1⟩
    generalize visit_eq : (proc.act q t').giveBack th q (proc.answer q (flag q)) = u
    have visited (r : HostId) : u.Held th r ↔ (r = n ∨ t.Held th r) ∧ (r = q → issetHeld (proc.answer q (flag q))) := by
      rw [← visit_eq, visit_held, held_next]
    by_cases bail : issetBail (proc.answer q (flag q)) = true
    · rw [if_pos bail, if_pos bail]
      refine ⟨fun strands => absurd bail strands.1, fun _ => ?_⟩
      -- The next host is given back if it was held only for the enumeration.
      by_cases held : issetHeld (flag n) = true
      · rw [if_neg (not_not.2 held)]
        refine ⟨u, rfl, settled_one own fun r => ?_⟩
        rw [visited]
        rw [flag_n, issetHeld_held] at held
        exact and_congr_left fun _ => ⟨fun either => either.elim (fun same => same ▸ held) id, .inr⟩
      rw [if_pos held]
      refine ⟨_, rfl, settled_one own fun r => ?_⟩
      rw [release_held, visited, ← and_assoc]
      rw [flag_n, issetHeld_held] at held
      refine and_congr_left fun _ => ⟨fun both => both.2.resolve_left both.1, fun own => ⟨?_, .inr own⟩⟩
      rintro rfl
      exact held own
    rw [if_neg bail, if_neg bail]
    obtain ⟨before', behind, distinct'⟩ := visit_behind proc (proc.answer q (flag q))
      (list'.trans list) (list'.symm ▸ distinct)
    rw [visit_eq] at behind distinct'
    have own' : u.Held th n := (visited n).2 ⟨.inl rfl, fun same => absurd same.symm apart.1⟩
    have flags' : ∀ r ∈ rest, flag r = u.held th r := fun r member => by
      have other : r ≠ n := fun same => apart.2.2 (same ▸ member)
      have other' : r ≠ q := fun same => apart.2.1 (same ▸ member)
      rw [flags r (mem_cons_of_mem n member)]
      refine held_congr ?_
      rw [visited, or_iff_right other, and_iff_left fun same => absurd same other']
    obtain ⟨stranded, safe⟩ := ih (flag n) (calls ++ [(q, proc.answer q (flag q))])
      (Nat.lt_of_succ_lt_succ enough) behind distinct' own' (by rw [flag_n]; exact not_issetBail_held) flags'
    refine ⟨fun strands => stranded strands.2, fun unstranded => ?_⟩
    obtain ⟨after, run, settled⟩ := safe fun strands => unstranded ⟨bail, strands⟩
    refine ⟨after, by rw [run, append_assoc]; rfl, settled_cons apart.1 own (fun b called => ?_) ?_ visited settled⟩
    · rcases List.mem_cons.1 (mem_of_mem_answers called).1 with same | later
      · exact apart.1 same
      · exact apart.2.1 later
    · exact head_called _ n rest

theorem strands_iff {answer flag : HostId → UInt32} {nheld : UInt32} {q : HostId} :
    Strands answer flag nheld (q :: rest) ↔ BailsAtEnd answer (q :: rest) ∧
        if rest = [] then ¬issetHeld nheld else ∀ l, (q :: rest).getLast? = some l → ¬issetHeld (flag l) := by
  induction rest generalizing q nheld with
  | nil => exact Iff.rfl
  | cons n rest ih =>
    rw [Strands, BailsAtEnd, ih, and_assoc, if_neg (cons_ne_nil n rest), getLast?_cons_cons]
    · refine and_congr_right fun _ => and_congr_right fun _ => ?_
      split
      · next none =>
        subst none
        exact ⟨fun unset l last => by cases last; exact unset, fun all => all n rfl⟩
      · rfl
    · exact cons_ne_nil n rest

def from? (t : HostTable) : Option HostId → List HostId
  | none => []
  | some q => t.hostList.dropWhile (· ≠ q)

/-- The calls for the hosts of a list up to the first one that bails out. -/
def callsFor (proc : Procedure th) (t : HostTable) (list : List HostId) : Calls :=
  answers (fun q => proc.answer q (t.held th q)) list

/-- The hosts of the list are visited in order up to the first answer to bail out, no null host is looked at, and in the end the thread
    holds what it held before and the hosts that it was told to hold. -/
def Balanced (proc : Procedure th) (t : HostTable) (list : List HostId) (outcome : Outcome) : Prop :=
  ∃ after, outcome = .finished (callsFor proc t list) after ∧
    ∀ q, after.Held th q ↔ t.Held th q ∨ ∃ a, (q, a) ∈ callsFor proc t list ∧ issetHeld a

def KeepsOwn (proc : Procedure th) (t : HostTable) (list : List HostId) : Prop :=
  ∀ q a, (q, a) ∈ callsFor proc t list → t.Held th q → issetHeld a

theorem balanced_of_settled {after : HostTable} {outcome : Outcome}
    (run : outcome = .finished (callsFor proc t list) after) (settled : Settled th t after (callsFor proc t list)) :
    Balanced proc t list outcome ↔ KeepsOwn proc t list := by
  constructor
  · rintro ⟨after', run', all⟩ q a called own
    rw [run] at run'
    cases run'
    exact ((settled q).1 ((all q).2 (.inl own))).2 a called
  intro keeps
  refine ⟨after, run, fun q => (settled q).trans ⟨?_, ?_⟩⟩
  · rintro ⟨own | ⟨a, called⟩, all⟩
    · exact .inl own
    · exact .inr ⟨a, called, all a called⟩
  rintro (own | ⟨a, called, held⟩)
  · exact ⟨.inl own, fun a called => keeps q a called own⟩
  · refine ⟨.inr ⟨a, called⟩, fun b called' => ?_⟩
    rwa [(mem_of_mem_answers called').2, ← (mem_of_mem_answers called).2]

theorem enumerate_balanced (counted : t.hostCount = t.hostList.length) (distinct : t.hostList.Nodup) :
    Balanced proc t t.hostList (enumerate proc t) ↔
      KeepsOwn proc t t.hostList ∧ ∀ q ∈ t.hostList, (∀ a, (q, a) ∉ callsFor proc t t.hostList) → t.Held th q := by
  obtain ⟨held, first, count, held_all⟩ := holdAll_eq th distinct
  obtain ⟨after, second, all⟩ := callAll_eq proc (fun q => t.held th q) (t := held) distinct
  have run : enumerate proc t = .finished (callsFor proc t t.hostList) after := by
    unfold enumerate
    by_cases none : t.hostCount = 0
    · have empty : t.hostList = [] := eq_nil_of_length_eq_zero (counted ▸ none)
      rw [empty] at first second
      cases first
      cases second
      rw [if_pos none, empty]
      rfl
    · rw [if_neg none, first]
      dsimp only
      rw [if_pos (by rw [length_map, count, counted]), second]
      rfl
  constructor
  · rintro ⟨after', run', exact_⟩
    rw [run] at run'
    cases run'
    refine ⟨fun q a called own => ((all q).1 ((exact_ q).2 (.inl own))).2 a called, fun q member uncalled => ?_⟩
    rcases (exact_ q).1 ((all q).2 ⟨(held_all q).2 (.inl member), fun a called => absurd called (uncalled a)⟩) with own | ⟨a, called, -⟩
    · exact own
    · exact absurd called (uncalled a)
  rintro ⟨keeps, covered⟩
  refine ⟨after, run, fun q => ?_⟩
  rw [all, held_all]
  constructor
  · rintro ⟨member | own, told⟩
    · by_cases called : ∃ a, (q, a) ∈ callsFor proc t t.hostList
      · obtain ⟨a, called⟩ := called
        exact .inr ⟨a, called, told a called⟩
      · exact .inl (covered q member (not_exists.1 called))
    · exact .inl own
  · rintro (own | ⟨a, called, held⟩)
    · exact ⟨.inr own, fun a called => keeps q a called own⟩
    · refine ⟨.inl (mem_of_mem_answers called).1, fun b called' => ?_⟩
      rwa [(mem_of_mem_answers called').2, ← (mem_of_mem_answers called).2]

theorem enumerateR_balanced {enumstart : Option HostId} (counted : t.hostCount = t.hostList.length) (distinct : t.hostList.Nodup)
    (inside : ∀ q, enumstart = some q → q ∈ t.hostList) :
    Balanced proc t (t.from? enumstart) (enumerateR proc enumstart t) ↔ KeepsOwn proc t (t.from? enumstart) ∧
        ¬(BailsAtEnd (fun q => proc.answer q (t.held th q)) (t.from? enumstart) ∧
          ∀ l, (t.from? enumstart).getLast? = some l → t.from? enumstart = [l] ∨ ¬t.Held th l) := by
  cases enumstart with
  | none =>
    refine iff_of_true ⟨t, by unfold enumerateR; split <;> rfl, fun q => ?_⟩ ⟨fun q a called _ => ?_, fun both => both.1⟩
    · exact (or_iff_left fun ⟨a, called, _⟩ => absurd called not_mem_nil).symm
    · exact absurd called not_mem_nil
  | some q =>
    obtain ⟨before, rest, list⟩ := append_of_mem (inside q rfl)
    have from_eq : t.from? (some q) = q :: rest := dropWhile_eq list distinct
    have some_host : t.hostCount ≠ 0 := by
      rw [counted, list, length_append, length_cons]
      omega
    obtain ⟨t', t'_eq⟩ : ∃ t', t' = if t.held th q = 0 then t.hold th q else t := ⟨_, rfl⟩
    have held_first (r : HostId) : t'.Held th r ↔ r = q ∨ t.Held th r := t'_eq ▸ holdIf_held id
    have list' : t'.hostList = t.hostList := t'_eq ▸ holdIf_hostList
    have run : enumerateR proc (some q) t = enumerateLoop proc t.hostList.length (some q) (t.held th q) 0 [] t' := by
      unfold enumerateR
      rw [if_neg some_host, ← list', t'_eq]
    have distinct' := distinct
    rw [list] at distinct'
    have outside : q ∉ rest := (List.nodup_cons.1 (List.nodup_append.1 distinct').2.1).1
    have enough : rest.length < t.hostList.length := by
      rw [list, length_append, length_cons]
      omega
    have flags : ∀ r ∈ rest, t.held th r = t'.held th r := fun r member => by
      have other : r ≠ q := fun same => outside (same ▸ member)
      refine held_congr ?_
      rw [held_first, or_iff_right other]
    obtain ⟨stranded, safe⟩ := enumerateLoop_eq proc 0 [] enough (list'.trans list) (list'.symm ▸ distinct)
      ((held_first q).2 (.inl rfl)) not_issetBail_held flags
    have condition : Strands (fun r => proc.answer r (t.held th r)) (fun r => t.held th r) 0 (q :: rest) ↔
        BailsAtEnd (fun r => proc.answer r (t.held th r)) (q :: rest) ∧
          ∀ l, (q :: rest).getLast? = some l → q :: rest = [l] ∨ ¬t.Held th l := by
      rw [strands_iff]
      refine and_congr_right fun _ => ?_
      split
      · next none =>
        subst none
        exact iff_of_true (by decide) fun l last => by cases last; exact .inl rfl
      next more =>
      refine forall_congr' fun l => forall_congr' fun _ => ?_
      rw [issetHeld_held, or_iff_right]
      rintro same
      cases same
      exact more rfl
    rw [from_eq, ← condition, run]
    by_cases strands : Strands (fun r => proc.answer r (t.held th r)) (fun r => t.held th r) 0 (q :: rest)
    · rw [stranded strands]
      refine iff_of_false ?_ fun both => both.2 strands
      rintro ⟨after, ⟨⟩, -⟩
    obtain ⟨after, finished, settled⟩ := safe strands
    rw [and_iff_left strands]
    refine balanced_of_settled finished fun r => ?_
    rw [settled, held_first]
    refine and_congr_left fun _ => ?_
    constructor
    · rintro ((rfl | own) | called)
      · exact .inr (head_called _ _ rest)
      · exact .inl own
      · exact .inr called
    · exact fun either => either.imp_left .inr

/-- Both enumerations keep the holds balanced exactly if no host that the thread held is to be released, and `h_Enumerate` comes to all
    hosts that it has to hold for itself, and `h_Enumerate_r` is not bailed out of at the last host with the flag of a host behind it
    that there is not. -/
theorem enumerations_balanced (proc : Procedure th) (enumstart : Option HostId) (counted : t.hostCount = t.hostList.length)
    (distinct : t.hostList.Nodup) (inside : ∀ q, enumstart = some q → q ∈ t.hostList) :
    (Balanced proc t t.hostList (enumerate proc t) ↔
        KeepsOwn proc t t.hostList ∧ ∀ q ∈ t.hostList, (∀ a, (q, a) ∉ callsFor proc t t.hostList) → t.Held th q) ∧
      (Balanced proc t (t.from? enumstart) (enumerateR proc enumstart t) ↔ KeepsOwn proc t (t.from? enumstart) ∧
          ¬(BailsAtEnd (fun q => proc.answer q (t.held th q)) (t.from? enumstart) ∧
            ∀ l, (t.from? enumstart).getLast? = some l → t.from? enumstart = [l] ∨ ¬t.Held th l)) :=
  ⟨enumerate_balanced counted distinct, enumerateR_balanced counted distinct inside⟩

def threeHosts : HostTable where
  hostCount := 3
  hostList := [2, 1, 0]
  host _ := { holds := fun _ => 0, hostFlags := 0, locked := false, clients := [] }

def stopsAt (q : HostId) : Procedure ⟨7⟩ where
  answer r _ := if r = q then 0x80000000 else 0
  act _ t := t
  hostList _ _ := rfl
  kept _ _ _ := rfl

theorem enumerations_balanced_threeHosts :
    (Balanced (stopsAt 0) threeHosts threeHosts.hostList (enumerate (stopsAt 0) threeHosts) ↔
        KeepsOwn (stopsAt 0) threeHosts threeHosts.hostList ∧
          ∀ q ∈ threeHosts.hostList, (∀ a, (q, a) ∉ callsFor (stopsAt 0) threeHosts threeHosts.hostList) → threeHosts.Held ⟨7⟩ q) ∧
      (Balanced (stopsAt 0) threeHosts (threeHosts.from? (some 1)) (enumerateR (stopsAt 0) (some 1) threeHosts) ↔
        KeepsOwn (stopsAt 0) threeHosts (threeHosts.from? (some 1)) ∧
          ¬(BailsAtEnd (fun q => (stopsAt 0).answer q (threeHosts.held ⟨7⟩ q)) (threeHosts.from? (some 1)) ∧
            ∀ l, (threeHosts.from? (some 1)).getLast? = some l → threeHosts.from? (some 1) = [l] ∨ ¬threeHosts.Held ⟨7⟩ l)) :=
  enumerations_balanced (stopsAt 0) (some 1) rfl (by decide) fun q same => by cases same; decide

def heldAfter (th : Thread) (q : HostId) : Outcome → Option Bool
  | .finished _ t => some (t.held th q ≠ 0)
  | _ => none

/-- When the procedure stops at host 2, which is the first, `h_Enumerate` leaves host 0 held; when it stops at the last host, 0,
    `h_Enumerate_r` goes to a null host. -/
theorem bail_unbalanced : (heldAfter ⟨7⟩ 0 (enumerate (stopsAt 2) threeHosts) = some true ∧ ¬threeHosts.Held ⟨7⟩ 0) ∧
      heldAfter ⟨7⟩ 0 (enumerateR (stopsAt 0) (some 2) threeHosts) = none := by
  decide +kernel

end HostTable

end OpenAFS.Viced.Hosts
