import Mathlib.Data.List.Basic

namespace OpenAFS.Viced.Interfaces

open List

abbrev HostId := Nat

structure AddrPort where
  addr : UInt32
  port : UInt16
  valid : Int16
  deriving DecidableEq, Repr

def AddrPort.pair (e : AddrPort) : UInt32 × UInt16 := (e.addr, e.port)

/-- `interface` is the list of the addresses, for a host that has one. `callbackRxcon` is the address to which the connection for
    callbacks goes. -/
structure Host where
  host : UInt32
  port : UInt16
  hostFlags : UInt16
  interface : Option (List AddrPort)
  callbackRxcon : Option (UInt32 × UInt16)
  deriving DecidableEq, Repr

def hostDeleted : UInt16 := 0x10

structure HashChain where
  hostPtr : HostId
  addr : UInt32
  port : UInt16
  deriving DecidableEq, Repr

def hashIndex (addr : UInt32) : Nat := (addr &&& 255).toNat

structure Tables where
  host : HostId → Host
  hostAddrHashTable : Nat → List HashChain

/-- The search of `removeInterfaceAddr_r`: the array in which the pair that was found is not valid, the index at the end of the loop,
    which is one behind that pair, and whether it was found. -/
def search (addr : UInt32) (port : UInt16) : List AddrPort → List AddrPort × Nat × Bool
  | [] => ([], 0, false)
  | e :: rest =>
    if e.addr = addr ∧ e.port = port then ({ e with valid := 0 } :: rest, 1, true)
    else
      let (rest, i, found) := search addr port rest
      (e :: rest, i + 1, found)

def moveDown (number i : Nat) (interface : List AddrPort) : List AddrPort :=
  if i < number then moveDown number (i + 1) (interface.set i (interface.getD (i + 1) ⟨0, 0, 0⟩)) else interface
termination_by number - i

namespace Tables

variable (t : Tables) (q : HostId)

def setHost (host : Host) : Tables := { t with host := Function.update t.host q host }

def setChain (k : Nat) (chain : List HashChain) : Tables :=
  { t with hostAddrHashTable := Function.update t.hostAddrHashTable k chain }

def deleteFromAddrHashTable (addr : UInt32) (port : UInt16) : Tables :=
  t.setChain (hashIndex addr)
    ((t.hostAddrHashTable (hashIndex addr)).eraseP fun th => th.hostPtr = q ∧ th.addr = addr ∧ th.port = port)

def addToAddrHashTable (addr : UInt32) (port : UInt16) : Tables :=
  let chain := t.hostAddrHashTable (hashIndex addr)
  if chain.any fun th => th.addr = addr ∧ th.port = port ∧ th.hostPtr = q then t
  else t.setChain (hashIndex addr) (⟨q, addr, port⟩ :: chain)

/-- `removeInterfaceAddr_r`, which asserts that the host has a list. -/
def removeInterfaceAddr (addr : UInt32) (port : UInt16) : Option Tables :=
  match (t.host q).interface with
  | none => none
  | some interface =>
    let number := interface.length
    let (interface, i, found) := search addr port interface
    let interface := if found then (moveDown (number - 1) i interface).take (number - 1) else interface
    some ((t.setHost q { t.host q with interface := some interface }).deleteFromAddrHashTable q addr port)

def removeAddress (addr : UInt32) (port : UInt16) : Option Tables :=
  match (t.host q).interface with
  | none =>
    if (t.host q).host = addr ∧ (t.host q).port = port then
      some (t.setHost q { t.host q with hostFlags := (t.host q).hostFlags ||| hostDeleted })
    else some t
  | some _ =>
    (t.removeInterfaceAddr q (t.host q).host (t.host q).port).map fun t =>
      let host := t.host q
      let interface := host.interface.getD []
      if interface.length = 0 then t.setHost q { host with hostFlags := host.hostFlags ||| hostDeleted }
      else
        match interface.find? (·.valid ≠ 0) with
        | some e =>
          (t.setHost q { host with host := e.addr, port := e.port, callbackRxcon := some (e.addr, e.port) }).addToAddrHashTable q
            e.addr e.port
        | none => t.setHost q { host with callbackRxcon := none, hostFlags := host.hostFlags ||| hostDeleted }

def addresses : List AddrPort := (t.host q).interface.getD []

def Hashed (a : UInt32 × UInt16) : Prop := ⟨q, a.1, a.2⟩ ∈ t.hostAddrHashTable (hashIndex a.1)

def primary : UInt32 × UInt16 := ((t.host q).host, (t.host q).port)

end Tables

def removed (a : UInt32 × UInt16) (list : List AddrPort) : List AddrPort :=
  let (interface, i, found) := search a.1 a.2 list
  if found then (moveDown (list.length - 1) i interface).take (list.length - 1) else interface

theorem pair_eq_iff {e : AddrPort} {a : UInt32 × UInt16} : e.addr = a.1 ∧ e.port = a.2 ↔ e.pair = a :=
  (Prod.ext_iff (x := e.pair) (y := a)).symm

theorem search_missing {a : UInt32 × UInt16} {list : List AddrPort} (missing : ∀ e ∈ list, e.pair ≠ a) :
    search a.1 a.2 list = (list, list.length, false) := by
  induction list with
  | nil => rfl
  | cons e list ih =>
    rw [search, if_neg fun same => missing e mem_cons_self (pair_eq_iff.1 same),
      ih fun e' later => missing e' (mem_cons_of_mem e later)]
    rfl

theorem search_found {a : UInt32 × UInt16} {before after : List AddrPort} {e : AddrPort} (missing : ∀ e ∈ before, e.pair ≠ a)
    (here : e.pair = a) :
    search a.1 a.2 (before ++ e :: after) = (before ++ { e with valid := 0 } :: after, before.length + 1, true) := by
  induction before with
  | nil => exact if_pos (pair_eq_iff.2 here)
  | cons e' before ih =>
    rw [cons_append, search, if_neg fun same => missing e' mem_cons_self (pair_eq_iff.1 same),
      ih fun e'' later => missing e'' (mem_cons_of_mem e' later)]
    rfl

theorem moveDown_eq {number i : Nat} {list : List AddrPort} (length : list.length = number + 1) (inside : i ≤ number) :
    (moveDown number i list).take number = list.eraseIdx i := by
  induction i, list using moveDown.induct number with
  | case1 i list more ih =>
    rw [moveDown, if_pos more, ih (by rw [length_set]; exact length) more]
    refine ext_getElem? fun k => ?_
    rw [getElem?_eraseIdx, getElem?_eraseIdx, getElem?_set, getElem?_set]
    rcases Nat.lt_trichotomy k i with low | rfl | high
    · rw [if_pos (by omega), if_neg (by omega), if_pos low]
    · have room : k + 1 < list.length := by omega
      have room' : k < list.length := by omega
      simp [room, room']
    · rw [if_neg (by omega), if_neg (by omega), if_neg (by omega)]
  | case2 i list all =>
    have last : i = number := by omega
    rw [moveDown, if_neg all, last, eraseIdx_eq_take_drop_succ, drop_of_length_le (by omega), append_nil]

section

variable {a : UInt32 × UInt16} {before after : List AddrPort} {e n : AddrPort}

theorem removed_missing {list : List AddrPort} (missing : ∀ e ∈ list, e.pair ≠ a) : removed a list = list := by
  unfold removed
  rw [search_missing missing]
  rfl

theorem removed_last (missing : ∀ e ∈ before, e.pair ≠ a) (here : e.pair = a) : removed a (before ++ [e]) = before := by
  have number : (before ++ [e]).length - 1 = before.length := by
    rw [length_append]
    rfl
  have still : moveDown before.length (before.length + 1) (before ++ [{ e with valid := 0 }]) = before ++ [{ e with valid := 0 }] := by
    rw [moveDown, if_neg (by omega)]
  unfold removed
  rw [search_found missing here, number]
  dsimp only
  rw [if_pos rfl, still, take_left]

theorem removed_inner (missing : ∀ e ∈ before, e.pair ≠ a) (here : e.pair = a) :
    removed a (before ++ e :: n :: after) = before ++ { e with valid := 0 } :: after := by
  have number : (before ++ e :: n :: after).length - 1 = before.length + 1 + after.length := by
    rw [length_append, length_cons, length_cons]
    omega
  unfold removed
  rw [search_found missing here, number]
  dsimp only
  rw [if_pos rfl, moveDown_eq (by rw [length_append, length_cons, length_cons]; omega) (by omega)]
  have front : before ++ { e with valid := 0 } :: n :: after = (before ++ [{ e with valid := 0 }]) ++ n :: after := by
    rw [append_assoc]
    rfl
  have place : before.length + 1 = (before ++ [{ e with valid := 0 }]).length := by
    rw [length_append]
    rfl
  rw [front, place, eraseIdx_append_of_length_le (Nat.le_refl _), Nat.sub_self, eraseIdx_cons_zero, append_assoc]
  rfl

theorem place_cases {list : List AddrPort} (a : UInt32 × UInt16) (distinct : (list.map AddrPort.pair).Nodup) :
    (∀ e ∈ list, e.pair ≠ a) ∨ (∃ before e, list = before ++ [e] ∧ e.pair = a ∧ ∀ e' ∈ before, e'.pair ≠ a) ∨
      ∃ before e n after, list = before ++ e :: n :: after ∧ e.pair = a ∧ (∀ e' ∈ before, e'.pair ≠ a) ∧
        (∀ e' ∈ n :: after, e'.pair ≠ a) ∧ ∀ e' ∈ before ++ after, e'.pair ≠ n.pair := by
  by_cases missing : ∀ e ∈ list, e.pair ≠ a
  · exact .inl missing
  push Not at missing
  obtain ⟨e, member, here⟩ := missing
  obtain ⟨before, rest, rfl⟩ := append_of_mem member
  rw [map_append, nodup_append, map_cons, nodup_cons] at distinct
  have early : ∀ e' ∈ before, e'.pair ≠ a := fun e' inside same =>
    distinct.2.2 _ (mem_map_of_mem inside) _ mem_cons_self (same.trans here.symm)
  cases rest with
  | nil => exact .inr (.inl ⟨before, e, rfl, here, early⟩)
  | cons n after =>
    refine .inr (.inr ⟨before, e, n, after, rfl, here, early, fun e' inside same => ?_, fun e' inside same => ?_⟩)
    · exact distinct.2.1.1 ((same.trans here.symm) ▸ mem_map_of_mem inside)
    · rcases List.mem_append.1 inside with first | second
      · exact distinct.2.2 _ (mem_map_of_mem first) _ (mem_cons_of_mem _ mem_cons_self) same
      · exact (List.nodup_cons.1 distinct.2.1.2).1 (same ▸ mem_map_of_mem second)

end

namespace Tables

variable {t : Tables} {q : HostId} {a b : UInt32 × UInt16} {list : List AddrPort}

theorem host_setHost (host : Host) : (t.setHost q host).host q = host := Function.update_self ..

theorem hashed_delete (once : ∀ k, (t.hostAddrHashTable k).Nodup) :
    (t.deleteFromAddrHashTable q a.1 a.2).Hashed q b ↔ t.Hashed q b ∧ b ≠ a := by
  have gone : (t.hostAddrHashTable (hashIndex a.1)).eraseP (fun th => th.hostPtr = q ∧ th.addr = a.1 ∧ th.port = a.2) =
      (t.hostAddrHashTable (hashIndex a.1)).erase ⟨q, a.1, a.2⟩ := by
    rw [erase_eq_eraseP]
    congr 1
    funext th
    rw [Bool.eq_iff_iff, decide_eq_true_eq, beq_iff_eq]
    constructor
    · rintro ⟨rfl, addr, port⟩
      rw [← addr, ← port]
    · rintro rfl
      exact ⟨rfl, rfl, rfl⟩
  unfold deleteFromAddrHashTable Hashed setChain
  rw [gone]
  by_cases same : hashIndex b.1 = hashIndex a.1
  · dsimp only
    rw [same, Function.update_self, (once _).mem_erase_iff, and_comm]
    refine and_congr_right fun _ => not_congr ?_
    rw [HashChain.mk.injEq, and_iff_right rfl, Prod.ext_iff]
  dsimp only
  rw [Function.update_of_ne same, and_iff_left]
  rintro rfl
  exact same rfl

theorem hashed_add : (t.addToAddrHashTable q a.1 a.2).Hashed q b ↔ t.Hashed q b ∨ b = a := by
  unfold addToAddrHashTable
  dsimp only
  split
  · next known =>
    have found : t.Hashed q a := by
      obtain ⟨th, member, same⟩ := List.any_eq_true.1 known
      rw [decide_eq_true_eq] at same
      obtain ⟨addr, port, host⟩ := same
      have eq : th = ⟨q, a.1, a.2⟩ := by rw [← addr, ← port, ← host]
      rw [eq] at member
      exact member
    exact ⟨.inl, fun either => either.elim id fun same => same ▸ found⟩
  unfold Hashed setChain
  by_cases same : hashIndex b.1 = hashIndex a.1
  · dsimp only
    rw [same, Function.update_self, mem_cons, or_comm]
    refine or_congr_right ?_
    rw [HashChain.mk.injEq, and_iff_right rfl, Prod.ext_iff]
  dsimp only
  rw [Function.update_of_ne same, or_iff_left]
  rintro rfl
  exact same rfl

theorem removeInterfaceAddr_eq (has : (t.host q).interface = some list) (once : ∀ k, (t.hostAddrHashTable k).Nodup) :
    ∃ t', t.removeInterfaceAddr q a.1 a.2 = some t' ∧ (t'.host q).interface = some (removed a list) ∧
      ∀ b, t'.Hashed q b ↔ t.Hashed q b ∧ b ≠ a := by
  refine ⟨_, ?_, ?_, fun b => hashed_delete (t := t.setHost q { t.host q with interface := some (removed a list) }) once⟩
  · unfold removeInterfaceAddr
    rw [has]
    rfl
  · exact congrArg Host.interface (host_setHost _)

theorem removeAddress_eq (has : (t.host q).interface = some list) (once : ∀ k, (t.hostAddrHashTable k).Nodup) :
    ∃ t', t.removeAddress q a.1 a.2 = some t' ∧ (t'.host q).interface = some (removed (t.primary q) list) ∧
      ∀ b, t'.Hashed q b ↔ t.Hashed q b ∧ b ≠ t.primary q ∨
        ∃ e, (removed (t.primary q) list).find? (·.valid ≠ 0) = some e ∧ e.pair = b := by
  obtain ⟨t₁, run, interface, hashed⟩ := removeInterfaceAddr_eq (a := t.primary q) has once
  have run' : t.removeInterfaceAddr q (t.host q).host (t.host q).port = some t₁ := run
  unfold removeAddress
  rw [has]
  dsimp only
  rw [run', Option.map_some, interface, Option.getD_some]
  generalize removed (t.primary q) list = left at *
  split
  · next none =>
    rw [eq_nil_of_length_eq_zero none] at interface ⊢
    refine ⟨_, rfl, congrArg Host.interface (host_setHost _), fun b => (hashed b).trans ?_⟩
    exact (or_iff_left fun ⟨e, found, _⟩ => by cases found).symm
  cases found : left.find? (·.valid ≠ 0) with
  | none =>
    refine ⟨_, rfl, congrArg Host.interface (host_setHost _), fun b => (hashed b).trans ?_⟩
    exact (or_iff_left fun ⟨e, same, _⟩ => by cases same).symm
  | some e =>
    refine ⟨_, rfl, ?_, fun b => (hashed_add (a := e.pair)).trans ((or_congr_left (hashed b)).trans ?_)⟩
    · have kept (u : Tables) (addr : UInt32) (port : UInt16) : (u.addToAddrHashTable q addr port).host q = u.host q := by
        unfold addToAddrHashTable
        dsimp only
        split <;> rfl
      rw [kept, host_setHost]
    · exact or_congr_right ⟨fun same => ⟨e, rfl, same.symm⟩, fun ⟨e', same, pair⟩ => by cases same; exact pair.symm⟩

end Tables

section

variable {t : Tables} {q : HostId} {a : UInt32 × UInt16} {list : List AddrPort}

def OthersListed (t t' : Tables) (q : HostId) (a : UInt32 × UInt16) : Prop :=
  ∀ e, e ∈ t'.addresses q ↔ e ∈ t.addresses q ∧ e.pair ≠ a

/-- The pair is neither in the list nor in the hash table, and each other pair of the host is where it was. -/
structure OnlyGone (t t' : Tables) (q : HostId) (a : UInt32 × UInt16) : Prop where
  unlisted : ∀ e ∈ t'.addresses q, e.pair ≠ a
  unhashed : ¬t'.Hashed q a
  listed : ∀ e ∈ t.addresses q, e.pair ≠ a → ∃ e' ∈ t'.addresses q, e'.pair = e.pair
  hashed : ∀ b, b ≠ a → t.Hashed q b → t'.Hashed q b

def LastOrMissing (list : List AddrPort) (a : UInt32 × UInt16) : Prop :=
  (∀ e ∈ list, e.pair ≠ a) ∨ ∃ before e, list = before ++ [e] ∧ e.pair = a

def Behind (list : List AddrPort) (b a : UInt32 × UInt16) : Prop :=
  ∃ k, (list.map AddrPort.pair)[k]? = some b ∧ (list.map AddrPort.pair)[k + 1]? = some a

theorem behind_iff {before after : List AddrPort} {e : AddrPort} {b : UInt32 × UInt16}
    (distinct : ((before ++ e :: after).map AddrPort.pair).Nodup) (here : e.pair = b) :
    Behind (before ++ e :: after) b a ↔ after.head?.map AddrPort.pair = some a := by
  have place : ((before ++ e :: after).map AddrPort.pair)[before.length]? = some b := by
    rw [map_append, getElem?_append_right (Nat.le_of_eq (length_map _)), length_map, Nat.sub_self, map_cons, here]
    rfl
  have next : ((before ++ e :: after).map AddrPort.pair)[before.length + 1]? = after.head?.map AddrPort.pair := by
    rw [map_append, getElem?_append_right (by rw [length_map]; omega), length_map, Nat.add_sub_cancel_left]
    cases after <;> rfl
  constructor
  · rintro ⟨k, first, second⟩
    obtain ⟨room, -⟩ := List.getElem?_eq_some_iff.1 first
    have same : k = before.length := (getElem?_inj room distinct).1 (first.trans place.symm)
    rw [← next, ← same]
    exact second
  · exact fun second => ⟨before.length, place, next.trans second⟩

theorem not_lastOrMissing {before after : List AddrPort} {e n : AddrPort} (here : e.pair = a)
    (late : ∀ e' ∈ n :: after, e'.pair ≠ a) : ¬LastOrMissing (before ++ e :: n :: after) a := by
  rintro (missing | ⟨before', e', split, here'⟩)
  · exact missing e (mem_append_right _ mem_cons_self) here
  have last : e' ∈ n :: after := by
    have tail := congrArg List.getLast? split
    rw [getLast?_append_of_ne_nil _ (cons_ne_nil _ _), getLast?_cons_cons, getLast?_concat] at tail
    exact mem_of_getLast? tail
  exact late e' last here'

theorem othersListed_iff (distinct : (list.map AddrPort.pair).Nodup) :
    (∀ e, e ∈ removed a list ↔ e ∈ list ∧ e.pair ≠ a) ↔ LastOrMissing list a := by
  rcases place_cases a distinct with missing | ⟨before, e, rfl, here, early⟩ | ⟨before, e, n, after, rfl, here, early, late, -⟩
  · rw [removed_missing missing]
    exact iff_of_true (fun e => ⟨fun inside => ⟨inside, missing e inside⟩, And.left⟩) (.inl missing)
  · rw [removed_last early here]
    refine iff_of_true (fun e' => ⟨fun inside => ⟨mem_append_left _ inside, early e' inside⟩, ?_⟩) (.inr ⟨before, e, rfl, here⟩)
    rintro ⟨inside, other⟩
    rcases List.mem_append.1 inside with first | last
    · exact first
    · exact absurd (List.mem_singleton.1 last ▸ here) other
  · rw [removed_inner early here]
    refine iff_of_false (fun all => ?_) (not_lastOrMissing here late)
    exact ((all { e with valid := 0 }).1 (mem_append_right _ mem_cons_self)).2 here

/-- What `removeAddress_r` is to do happens if the pair is the primary one, and either last or not in the list, or if by chance another
    pair was to be removed that is not in the hash table. -/
def RemovesRight (t : Tables) (q : HostId) (a : UInt32 × UInt16) : Prop :=
  a = t.primary q ∧ LastOrMissing (t.addresses q) a ∨ a ≠ t.primary q ∧ ¬t.Hashed q a ∧ ¬t.Hashed q (t.primary q) ∧
      ((∀ e ∈ t.addresses q, e.pair ≠ t.primary q ∧ e.pair ≠ a) ∨ Behind (t.addresses q) (t.primary q) a)

theorem onlyGone_iff {t' : Tables} (distinct : ((t.addresses q).map AddrPort.pair).Nodup)
    (list : t'.addresses q = removed (t.primary q) (t.addresses q))
    (hashed : ∀ b, t'.Hashed q b ↔ t.Hashed q b ∧ b ≠ t.primary q ∨
      ∃ e, (removed (t.primary q) (t.addresses q)).find? (·.valid ≠ 0) = some e ∧ e.pair = b) :
    OnlyGone t t' q a ↔ RemovesRight t q a := by
  -- A pair that is not in the list that is left cannot become the primary one.
  have others {b : UInt32 × UInt16} (unlisted : ∀ e ∈ t'.addresses q, e.valid ≠ 0 → e.pair ≠ b) :
      t'.Hashed q b ↔ t.Hashed q b ∧ b ≠ t.primary q := by
    refine (hashed b).trans (or_iff_left ?_)
    rintro ⟨e, found, pair⟩
    rw [← list] at found
    exact unlisted e (mem_of_find?_eq_some found) (by simpa using find?_some found) pair
  unfold RemovesRight
  rcases place_cases (t.primary q) distinct with missing | ⟨before, e, split, here, early⟩ |
    ⟨before, e, n, after, split, here, early, late, apart⟩
  · rw [removed_missing missing] at list
    by_cases same : a = t.primary q
    · subst same
      refine iff_of_true ?_ (.inl ⟨rfl, .inl missing⟩)
      have unlisted : ∀ e ∈ t'.addresses q, e.pair ≠ t.primary q := fun e inside => missing e (list ▸ inside)
      exact ⟨unlisted, fun still => ((others fun e inside _ => unlisted e inside).1 still).2 rfl,
        fun e inside _ => ⟨e, list.symm ▸ inside, rfl⟩, fun b other found => (hashed b).2 (.inl ⟨found, other⟩)⟩
    rw [or_iff_right fun both => same both.1, and_iff_right same]
    have primary : t'.Hashed q (t.primary q) → False := fun still =>
      ((others fun e inside _ => missing e (list ▸ inside)).1 still).2 rfl
    constructor
    · intro gone
      have unhashed : ¬t.Hashed q a := fun found => gone.unhashed ((hashed a).2 (.inl ⟨found, same⟩))
      refine ⟨unhashed, fun found => primary (gone.hashed _ (Ne.symm same) found), .inl fun e inside => ?_⟩
      exact ⟨missing e inside, gone.unlisted e (list.symm ▸ inside)⟩
    rintro ⟨unhashed, unhashed', none | ⟨k, first, -⟩⟩
    · have unlisted : ∀ e ∈ t'.addresses q, e.pair ≠ a := fun e inside => (none e (list ▸ inside)).2
      refine ⟨unlisted, fun still => unhashed ((others fun e inside _ => unlisted e inside).1 still).1,
        fun e inside _ => ⟨e, list.symm ▸ inside, rfl⟩, fun b _ found => (hashed b).2 (.inl ⟨found, ?_⟩)⟩
      rintro rfl
      exact unhashed' found
    · obtain ⟨e, inside, here⟩ := List.mem_map.1 (mem_of_getElem? first)
      exact absurd here (missing e inside)
  · rw [split, removed_last early here] at list
    by_cases same : a = t.primary q
    · subst same
      refine iff_of_true ?_ (.inl ⟨rfl, .inr ⟨before, e, split, here⟩⟩)
      have unlisted : ∀ e ∈ t'.addresses q, e.pair ≠ t.primary q := fun e inside => early e (list ▸ inside)
      refine ⟨unlisted, fun still => ((others fun e inside _ => unlisted e inside).1 still).2 rfl,
        fun e' inside other => ?_, fun b other found => (hashed b).2 (.inl ⟨found, other⟩)⟩
      rw [split] at inside
      rcases List.mem_append.1 inside with first | last
      · exact ⟨e', list.symm ▸ first, rfl⟩
      · exact absurd (List.mem_singleton.1 last ▸ here) other
    refine iff_of_false (fun gone => ?_) ?_
    · obtain ⟨e', inside, pair⟩ := gone.listed e (split ▸ mem_append_right _ mem_cons_self)
        (here.symm ▸ Ne.symm same)
      exact early e' (list ▸ inside) (pair.trans here)
    rintro (⟨primary, -⟩ | ⟨-, -, -, none | behind⟩)
    · exact same primary
    · exact (none e (split ▸ mem_append_right _ mem_cons_self)).1 here
    · rw [split] at behind distinct
      cases (behind_iff distinct here).1 behind
  rw [split, removed_inner early here] at list
  by_cases same : a = t.primary q
  · subst same
    refine iff_of_false (fun gone => ?_) ?_
    · exact gone.unlisted { e with valid := 0 } (list ▸ mem_append_right _ mem_cons_self) here
    · rintro (⟨-, place⟩ | ⟨other, -⟩)
      · exact not_lastOrMissing here late (split ▸ place)
      · exact other rfl
  have behind : Behind (t.addresses q) (t.primary q) a ↔ n.pair = a := by
    rw [split] at distinct ⊢
    rw [behind_iff distinct here]
    exact Option.some_inj
  have primary : t'.Hashed q (t.primary q) → False := fun still => by
    refine ((others fun e' inside valid pair => ?_).1 still).2 rfl
    rw [list] at inside
    rcases List.mem_append.1 inside with first | rest
    · exact early e' first pair
    · rcases List.mem_cons.1 rest with rfl | second
      · exact valid rfl
      · exact late e' (mem_cons_of_mem n second) pair
  rw [or_iff_right fun both => same both.1, and_iff_right same, behind]
  constructor
  · intro gone
    have unhashed : ¬t.Hashed q a := fun found => gone.unhashed ((hashed a).2 (.inl ⟨found, same⟩))
    refine ⟨unhashed, fun found => primary (gone.hashed _ (Ne.symm same) found), .inr (by_contra fun lost => ?_)⟩
    obtain ⟨e', inside, pair⟩ := gone.listed n
      (split ▸ mem_append_right _ (mem_cons_of_mem e mem_cons_self)) lost
    rw [list] at inside
    rcases List.mem_append.1 inside with first | rest
    · exact apart e' (mem_append_left _ first) pair
    · rcases List.mem_cons.1 rest with rfl | second
      · exact late n mem_cons_self (pair.symm.trans here)
      · exact apart e' (mem_append_right _ second) pair
  rintro ⟨unhashed, unhashed', none | lost⟩
  · exact absurd here (none e (split ▸ mem_append_right _ mem_cons_self)).1
  have unlisted : ∀ e' ∈ t'.addresses q, e'.pair ≠ a := fun e' inside pair => by
    rw [list] at inside
    rcases List.mem_append.1 inside with first | rest
    · exact apart e' (mem_append_left _ first) (pair.trans lost.symm)
    · rcases List.mem_cons.1 rest with rfl | second
      · exact same (pair.symm.trans here)
      · exact apart e' (mem_append_right _ second) (pair.trans lost.symm)
  refine ⟨unlisted, fun still => unhashed ((others fun e inside _ => unlisted e inside).1 still).1,
    fun e' inside other => ?_, fun b _ found => (hashed b).2 (.inl ⟨found, ?_⟩)⟩
  · rw [split] at inside
    rcases List.mem_append.1 inside with first | rest
    · exact ⟨e', list.symm ▸ mem_append_left _ first, rfl⟩
    rcases List.mem_cons.1 rest with rfl | rest
    · exact ⟨{ e' with valid := 0 }, list.symm ▸ mem_append_right _ mem_cons_self, rfl⟩
    · rcases List.mem_cons.1 rest with rfl | second
      · exact absurd lost other
      · exact ⟨e', list.symm ▸ mem_append_right _ (mem_cons_of_mem _ second), rfl⟩
  · rintro rfl
    exact unhashed' found

/-- For a host with a list of distinct addresses, `removeInterfaceAddr_r` takes exactly the pair out of the list if it is the last one or
    not there, and `removeAddress_r` takes it out of the list and the hash table, and nothing else, exactly if `RemovesRight`. -/
theorem edits_exact (has : (t.host q).interface = some list) (distinct : (list.map AddrPort.pair).Nodup)
    (once : ∀ k, (t.hostAddrHashTable k).Nodup) (a : UInt32 × UInt16) :
    ((∃ t', t.removeInterfaceAddr q a.1 a.2 = some t' ∧ OthersListed t t' q a) ↔ LastOrMissing (t.addresses q) a) ∧
      ((∃ t', t.removeAddress q a.1 a.2 = some t' ∧ OnlyGone t t' q a) ↔ RemovesRight t q a) := by
  have addresses : t.addresses q = list := by
    unfold Tables.addresses
    rw [has]
    rfl
  constructor
  · obtain ⟨t', run, interface, -⟩ := Tables.removeInterfaceAddr_eq (a := a) has once
    have left : t'.addresses q = removed a list := by
      unfold Tables.addresses
      rw [interface]
      rfl
    unfold OthersListed
    rw [run, addresses, ← othersListed_iff distinct, ← left]
    exact ⟨fun ⟨t'', same, all⟩ => by cases same; exact all, fun all => ⟨t', rfl, all⟩⟩
  obtain ⟨t', run, interface, hashed⟩ := Tables.removeAddress_eq (a := a) has once
  have left : t'.addresses q = removed (t.primary q) (t.addresses q) := by
    rw [addresses]
    unfold Tables.addresses
    rw [interface]
    rfl
  rw [← addresses] at distinct hashed
  rw [run, ← onlyGone_iff distinct left hashed]
  exact ⟨fun ⟨t'', same, all⟩ => by cases same; exact all, fun all => ⟨t', rfl, all⟩⟩

end

def threeAddresses : Tables where
  host _ :=
    { host := 1
      port := 7001
      hostFlags := 0
      interface := some [⟨1, 7001, 1⟩, ⟨2, 7001, 1⟩, ⟨3, 7001, 1⟩]
      callbackRxcon := some (1, 7001) }
  hostAddrHashTable k := if k = 1 then [⟨0, 1, 7001⟩] else if k = 2 then [⟨0, 2, 7001⟩] else if k = 3 then [⟨0, 3, 7001⟩] else []

theorem edits_exact_threeAddresses :
    ((∃ t', threeAddresses.removeInterfaceAddr 0 3 7001 = some t' ∧ OthersListed threeAddresses t' 0 (3, 7001)) ↔
        LastOrMissing (threeAddresses.addresses 0) (3, 7001)) ∧
      ((∃ t', threeAddresses.removeAddress 0 3 7001 = some t' ∧ OnlyGone threeAddresses t' 0 (3, 7001)) ↔
        RemovesRight threeAddresses 0 (3, 7001)) :=
  edits_exact rfl (by decide) (fun k => by
    show (ite _ _ _ : List HashChain).Nodup
    split
    · decide
    · split
      · decide
      · split <;> decide) (3, 7001)

/-- When the first of the addresses is removed, the second one goes, and the first stays. -/
theorem wrong_address_removed :
    ((threeAddresses.removeInterfaceAddr 0 1 7001).map fun t => (t.addresses 0).map AddrPort.pair) = some [(1, 7001), (3, 7001)] ∧
      ((threeAddresses.removeAddress 0 3 7001).map fun t => (t.addresses 0).map AddrPort.pair) = some [(1, 7001), (3, 7001)] := by
  decide +kernel

end OpenAFS.Viced.Interfaces
