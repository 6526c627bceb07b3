import Mathlib.Data.List.TakeWhile
import OpenAFS.Vlserver.Extents

namespace OpenAFS.Vlserver

open Lib List TableM

structure ListAddrByAttributes where
  mask : UInt32
  ipaddr : UInt32 := 0
  index : Int := 0
  uuid : Uuid := 0

structure AddrsReply where
  uuid : Uuid
  uniquifier : UInt32
  /-- `nentries` is its length. -/
  bulkaddrs : List UInt32

namespace ListAddrByAttributes

def ipaddrBit : UInt32 := 1
def indexBit : UInt32 := 2
def uuidBit : UInt32 := 4

def has (r : ListAddrByAttributes) (bit : UInt32) : Prop := r.mask &&& bit ≠ 0

instance (r : ListAddrByAttributes) (bit : UInt32) : Decidable (r.has bit) := by unfold has; infer_instance

end ListAddrByAttributes

def weed (taddrp : List UInt32) : List UInt32 → List UInt32
  | [] => taddrp
  | taddr :: rest => weed (if taddr ∈ taddrp then taddrp else taddrp ++ [taddr]) rest

def ExtentAddr.reply (exp : ExtentAddr) : AddrsReply where
  uuid := exp.hostUuid
  uniquifier := exp.uniquifier
  bulkaddrs := weed [] exp.list

namespace Globals

variable (g : Globals)

/-- The loop over the entries of a block; `exp` is the entry that was looked at last. -/
def scanBlock (block : ExtentBlock) (ipaddr : UInt32) (base : Nat) : List Nat → Option Place → Option Place × Bool
  | [], exp => (exp, false)
  | i :: rest, _ =>
    if (block.server i).hostUuid ≠ 0 ∧ ipaddr ∈ (block.server i).list then (some (base, i), true)
    else scanBlock block ipaddr base rest (some (base, i))

/-- The loop over the blocks. It fails only after the last of four blocks. -/
def scanBlocks (ipaddr : UInt32) : List Nat → Option Place → Except AddrError (Option Place)
  | [], _ => .error .noEnt
  | base :: rest, exp =>
    match g.exAddr base with
    | none => .ok exp
    | some block =>
      match scanBlock block ipaddr base (List.range' 1 (mhSrvPerBlk - 1)) exp with
      | (exp, true) => .ok exp
      | (exp, false) => scanBlocks ipaddr rest exp

def placeOfIndex (index : Int) : Except AddrError (Option Place) :=
  if index < 1 ∨ (maxAddrExtBlks * mhSrvPerBlk : Int) ≤ index then .error .indexRange
  else if index.toNat % mhSrvPerBlk = 0 then .error .noEnt
  else if g.exAddr (index.toNat / mhSrvPerBlk) = none then .error .indexRange
  else .ok (some (index.toNat / mhSrvPerBlk, index.toNat % mhSrvPerBlk))

end Globals

open ListAddrByAttributes

def ListAddrByAttributes.find (attributes : ListAddrByAttributes) : TableM (Option Place) := do
  let g := (← get).mem
  if attributes.has ipaddrBit then
    if attributes.has (indexBit ||| uuidBit) then throw .badMask
    else liftExcept (g.scanBlocks attributes.ipaddr (List.range maxAddrExtBlks) none)
  else if attributes.has indexBit then
    if attributes.has (ipaddrBit ||| uuidBit) then throw .badMask
    else liftExcept (g.placeOfIndex attributes.index)
  else if attributes.has uuidBit then
    if attributes.has (ipaddrBit ||| indexBit) then throw .badMask
    else if g.exAddr 0 = none then throw .noEnt
    else findExtentBlock attributes.uuid false none
  else throw .badMask

def getAddrsU (attributes : ListAddrByAttributes) : TableM AddrsReply := do
  match ← attributes.find with
  | none => throw .noEnt
  | some p =>
    let exp ← deref ((← get).mem.entry p)
    if exp.hostUuid = 0 then throw .noEnt
    pure exp.reply

theorem mem_weed {taddrp l : List UInt32} {a : UInt32} : a ∈ weed taddrp l ↔ a ∈ taddrp ∨ a ∈ l := by
  induction l generalizing taddrp with
  | nil => simp [weed]
  | cons taddr rest ih =>
    rw [weed, ih]
    split
    · next known =>
      constructor
      · rintro (old | later)
        · exact .inl old
        · exact .inr (mem_cons_of_mem _ later)
      rintro (old | later)
      · exact .inl old
      · rcases List.mem_cons.1 later with rfl | later
        · exact .inl known
        · exact .inr later
    · simp [or_assoc]

theorem weed_nodup {taddrp l : List UInt32} (distinct : taddrp.Nodup) : (weed taddrp l).Nodup := by
  induction l generalizing taddrp with
  | nil => exact distinct
  | cons taddr rest ih =>
    rw [weed]
    split
    · exact ih distinct
    · next fresh =>
      have apart : ∀ b ∈ taddrp, b ≠ taddr := fun b inside => ne_of_mem_of_not_mem inside fresh
      exact ih (List.nodup_append.2 ⟨distinct, by simp, by simpa using apart⟩)

namespace ListAddrByAttributes

variable (r : ListAddrByAttributes)

def ByIpaddr : Prop := r.has ipaddrBit ∧ ¬ r.has (indexBit ||| uuidBit)
def ByIndex : Prop := r.has indexBit ∧ ¬ r.has (ipaddrBit ||| uuidBit)
def ByUuid : Prop := r.has uuidBit ∧ ¬ r.has (ipaddrBit ||| indexBit)

def Wants (p : Place) (exp : ExtentAddr) : Prop :=
  r.ByIpaddr ∧ r.ipaddr ∈ exp.list ∨ r.ByIndex ∧ r.index = p.1 * mhSrvPerBlk + p.2 ∨ r.ByUuid ∧ exp.hostUuid = r.uuid

variable {r : ListAddrByAttributes}

theorem has_or {bit bit' : UInt32} : r.has (bit ||| bit') ↔ r.has bit ∨ r.has bit' := by
  unfold has
  simp only [ne_eq, ← UInt32.toBitVec_inj, UInt32.toBitVec_and, UInt32.toBitVec_or, UInt32.toBitVec_zero,
    BitVec.and_or_distrib_left, BitVec.or_eq_zero_iff, not_and_or]

end ListAddrByAttributes

namespace Globals

variable (g : Globals)

structure Registered (p : Place) (exp : ExtentAddr) : Prop where
  base : p.1 < maxAddrExtBlks
  first : 1 ≤ p.2
  last : p.2 < mhSrvPerBlk
  entry : g.entry p = some exp
  uuid : exp.hostUuid ≠ 0

end Globals

structure AddrsReply.Tells (a : AddrsReply) (exp : ExtentAddr) : Prop where
  uuid : a.uuid = exp.hostUuid
  uniquifier : a.uniquifier = exp.uniquifier
  mem : ∀ x, x ∈ a.bulkaddrs ↔ x ≠ 0 ∧ ∃ j < maxIpAddrsPerMh, exp.addrs j = x
  nodup : a.bulkaddrs.Nodup

/-- A reply tells of an entry that is registered and asked for; where there is none, the call fails. -/
def AddrsMet (g : Globals) (r : ListAddrByAttributes) : Except AddrError AddrsReply → Prop
  | .ok a => ∃ p exp, g.Registered p exp ∧ r.Wants p exp ∧ a.Tells exp
  | .error c => (∀ p exp, g.Registered p exp → ¬ r.Wants p exp) ∧ c ≠ .fault ∧ (r.ByIpaddr → c = .noEnt)

namespace Globals

variable (g : Globals)

def loaded : Nat := ((List.range maxAddrExtBlks).takeWhile fun base => (g.exAddr base).isSome).length

/-- An entry with the address lies before the first block that is missing; or there is none, and either no block or every block
    is there, or the last entry of the last block before it holds no server. -/
def IpaddrMet (ipaddr : UInt32) : Prop :=
  (∃ p exp, g.Registered p exp ∧ ipaddr ∈ exp.list ∧ p.1 < g.loaded) ∨
    (∀ p exp, g.Registered p exp → ipaddr ∉ exp.list) ∧ (g.loaded = 0 ∨ g.loaded = maxAddrExtBlks ∨
      ∀ exp, g.entry (g.loaded - 1, mhSrvPerBlk - 1) = some exp → exp.hostUuid = 0)

def reacts (uuid : Uuid) (i : Nat) : Bool :=
  isMultiHomed (g.hostAddress i) && (g.extentAddr (g.hostAddress i)).all (·.hostUuid = uuid)

/-- The first slot that reacts is that of a registered entry, and there is one if an entry with the uuid is registered. -/
def UuidMet (uuid : Uuid) : Prop :=
  if g.exAddr 0 = none ∨ g.cheader.sit = 0 ∧ g.contaddr 0 = some 0 then
    ∀ p exp, g.Registered p exp → exp.hostUuid ≠ uuid
  else
    match slots.find? (g.reacts uuid) with
    | none => ∀ p exp, g.Registered p exp → exp.hostUuid ≠ uuid
    | some i =>
      match g.extentAddr (g.hostAddress i) with
      | none => Outside (g.hostAddress i) ∧ ∀ p exp, g.Registered p exp → exp.hostUuid ≠ uuid
      | some exp => uuid = 0 ∨ ∃ p exp', g.Registered p exp' ∧ exp.reply.Tells exp'

end Globals

namespace ExtentAddr

variable (exp : ExtentAddr)

theorem reply_tells : exp.reply.Tells exp where
  uuid := rfl
  uniquifier := rfl
  mem a := by
    have weeded : a ∈ exp.reply.bulkaddrs ↔ a ∈ exp.list := by simp [reply, mem_weed]
    exact weeded.trans exp.mem_list
  nodup := weed_nodup nodup_nil

end ExtentAddr

namespace Globals

variable {g : Globals} {ipaddr : UInt32}

theorem scanBlock_found {block : ExtentBlock} {base : Nat} {l : List Nat} {exp exp' : Option Place}
    (found : scanBlock block ipaddr base l exp = (exp', true)) :
    ∃ i ∈ l, exp' = some (base, i) ∧ (block.server i).hostUuid ≠ 0 ∧ ipaddr ∈ (block.server i).list := by
  induction l generalizing exp with
  | nil => cases found
  | cons i rest ih =>
    rw [scanBlock] at found
    split at found
    · next holds =>
      cases found
      exact ⟨i, mem_cons_self, rfl, holds⟩
    · obtain ⟨j, inside, rest⟩ := ih found
      exact ⟨j, mem_cons_of_mem _ inside, rest⟩

theorem scanBlock_vain {block : ExtentBlock} {base : Nat} {l : List Nat} {exp exp' : Option Place}
    (vain : scanBlock block ipaddr base l exp = (exp', false)) :
    (∀ i ∈ l, (block.server i).hostUuid ≠ 0 → ipaddr ∉ (block.server i).list) ∧
      ∀ i, l.getLast? = some i → exp' = some (base, i) := by
  induction l generalizing exp with
  | nil => exact ⟨by simp, by simp⟩
  | cons i rest ih =>
    rw [scanBlock] at vain
    split at vain
    · cases vain
    next other =>
    obtain ⟨none_, last⟩ := ih vain
    refine ⟨?_, ?_⟩
    · intro j inside
      rcases List.mem_cons.1 inside with rfl | inside
      · intro used holds
        exact other ⟨used, holds⟩
      · exact none_ j inside
    intro j isLast
    cases rest with
    | nil =>
      cases isLast
      cases vain
      rfl
    | cons k rest => exact last j (by rwa [getLast?_cons_cons] at isLast)

theorem mem_places {i : Nat} : i ∈ List.range' 1 (mhSrvPerBlk - 1) ↔ 1 ≤ i ∧ i < mhSrvPerBlk := by
  rw [mem_range'_1]
  omega

inductive ScanEnd (g : Globals) (ipaddr : UInt32) (l : List Nat) (exp : Option Place) :
    Except AddrError (Option Place) → Prop
  | found (base i : Nat) (block : ExtentBlock) (inside : base ∈ l.takeWhile fun base => (g.exAddr base).isSome)
      (first : 1 ≤ i) (last : i < mhSrvPerBlk) (there : g.exAddr base = some block)
      (used : (block.server i).hostUuid ≠ 0) (holds : ipaddr ∈ (block.server i).list) :
      ScanEnd g ipaddr l exp (.ok (some (base, i)))
  | missing (vain : ∀ base ∈ l.takeWhile fun base => (g.exAddr base).isSome, ∀ i exp,
        g.Registered (base, i) exp → ipaddr ∉ exp.list)
      (short : l.takeWhile (fun base => (g.exAddr base).isSome) ≠ l)
      (exp' : Option Place)
      (left : exp' = ((l.takeWhile fun base => (g.exAddr base).isSome).getLast?.map (·, mhSrvPerBlk - 1)).or exp) :
      ScanEnd g ipaddr l exp (.ok exp')
  | all (vain : ∀ base ∈ l, ∀ i exp, g.Registered (base, i) exp → ipaddr ∉ exp.list)
      (there : ∀ base ∈ l, (g.exAddr base).isSome) : ScanEnd g ipaddr l exp (.error .noEnt)

variable (g ipaddr) in
theorem scanBlocks_end (l : List Nat) (exp : Option Place) : ScanEnd g ipaddr l exp (g.scanBlocks ipaddr l exp) := by
  induction l generalizing exp with
  | nil => exact .all (by simp) (by simp)
  | cons base rest ih =>
    rw [scanBlocks]
    cases there : g.exAddr base with
    | none =>
      have empty : (base :: rest).takeWhile (fun base => (g.exAddr base).isSome) = [] := by simp [there]
      exact .missing (by simp [empty]) (by simp [empty]) exp (by simp [empty])
    | some block =>
      have more : (base :: rest).takeWhile (fun base => (g.exAddr base).isSome) =
          base :: rest.takeWhile fun base => (g.exAddr base).isSome := by simp [there]
      dsimp only
      rcases scanned : scanBlock block ipaddr base (List.range' 1 (mhSrvPerBlk - 1)) exp with ⟨exp', _ | _⟩
      · obtain ⟨vain, last⟩ := scanBlock_vain scanned
        have here : ∀ i exp, g.Registered (base, i) exp → ipaddr ∉ exp.list := by
          intro i exp registered
          have same : exp = block.server i := by
            have inBlock := registered.entry
            rw [entry, there] at inBlock
            exact (Option.some.inj inBlock).symm
          rw [same]
          exact vain i (mem_places.2 ⟨registered.first, registered.last⟩) (same ▸ registered.uuid)
        have left : exp' = some (base, mhSrvPerBlk - 1) := last _ (by decide)
        have ended := ih exp'
        dsimp only
        generalize g.scanBlocks ipaddr rest exp' = result at ended ⊢
        cases ended with
        | found base' i block' inside first last' there' used holds =>
          exact .found base' i block' (more ▸ mem_cons_of_mem _ inside) first last' there' used holds
        | missing vain' short exp'' left' =>
          refine .missing ?_ (by rw [more]; simpa using short) exp'' ?_
          · rw [more]
            intro base' inside
            rcases List.mem_cons.1 inside with rfl | inside
            · exact here
            · exact vain' base' inside
          · rw [left', more, left, getLast?_cons]
            cases (rest.takeWhile fun base => (g.exAddr base).isSome).getLast? <;> rfl
        | all vain' there' =>
          refine .all ?_ ?_
          · intro base' inside
            rcases List.mem_cons.1 inside with rfl | inside
            · exact here
            · exact vain' base' inside
          intro base' inside
          rcases List.mem_cons.1 inside with rfl | inside
          · rw [there]
            rfl
          · exact there' base' inside
      · obtain ⟨i, inside, rfl, used, holds⟩ := scanBlock_found scanned
        obtain ⟨first, last⟩ := mem_places.1 inside
        exact .found base i block (more ▸ mem_cons_self) first last there used holds

theorem findUuid_eq (uuid : Uuid) (l : List Nat) : g.findUuid uuid l = match l.find? (g.reacts uuid) with
      | none => .ok none
      | some i =>
        if Outside (g.hostAddress i) then .error .indexRange
        else match g.extentAddr (g.hostAddress i) with
          | none => .error .fault
          | some _ => .ok (some (extentBase (g.hostAddress i), extentIndex (g.hostAddress i))) := by
  induction l with
  | nil => rfl
  | cons i rest ih =>
    rw [findUuid, find?_cons, ih]
    by_cases multi : isMultiHomed (g.hostAddress i)
    · rw [if_pos multi]
      by_cases outside : Outside (g.hostAddress i)
      · have none_ : g.extentAddr (g.hostAddress i) = none := extentAddr_outside outside
        have reacts : g.reacts uuid i = true := by simp [Globals.reacts, multi, none_]
        rw [reacts, if_pos outside]
        exact (if_pos outside).symm
      rw [if_neg outside]
      cases entry : g.extentAddr (g.hostAddress i) with
      | none =>
        have reacts : g.reacts uuid i = true := by simp [Globals.reacts, multi, entry]
        rw [reacts]
        simp only [if_neg outside, entry]
      | some exp =>
        by_cases same : exp.hostUuid = uuid
        · have reacts : g.reacts uuid i = true := by simp [Globals.reacts, multi, entry, same]
          rw [reacts]
          simp only [if_neg outside, entry, if_pos same]
        · have reacts : g.reacts uuid i = false := by simp [Globals.reacts, entry, same]
          rw [reacts]
          simp only [if_neg same]
    · have reacts : g.reacts uuid i = false := by simp [Globals.reacts, multi]
      rw [if_neg multi, reacts]

end Globals

namespace ListAddrByAttributes

variable {r : ListAddrByAttributes} {p : Place} {exp : ExtentAddr}

theorem wants_of_ipaddr (by_ : r.ByIpaddr) : r.Wants p exp ↔ r.ipaddr ∈ exp.list := by
  have others := by_.2
  rw [has_or, not_or] at others
  refine ⟨?_, fun holds => .inl ⟨by_, holds⟩⟩
  rintro (⟨_, holds⟩ | ⟨byIndex, _⟩ | ⟨byUuid, _⟩)
  · exact holds
  · exact absurd byIndex.1 others.1
  · exact absurd byUuid.1 others.2

theorem wants_of_index (by_ : r.ByIndex) : r.Wants p exp ↔ r.index = p.1 * mhSrvPerBlk + p.2 := by
  have others := by_.2
  rw [has_or, not_or] at others
  refine ⟨?_, fun holds => .inr (.inl ⟨by_, holds⟩)⟩
  rintro (⟨byIpaddr, _⟩ | ⟨_, holds⟩ | ⟨byUuid, _⟩)
  · exact absurd byIpaddr.1 others.1
  · exact holds
  · exact absurd byUuid.1 others.2

theorem wants_of_uuid (by_ : r.ByUuid) : r.Wants p exp ↔ exp.hostUuid = r.uuid := by
  have others := by_.2
  rw [has_or, not_or] at others
  refine ⟨?_, fun holds => .inr (.inr ⟨by_, holds⟩)⟩
  rintro (⟨byIpaddr, _⟩ | ⟨byIndex, _⟩ | ⟨_, holds⟩)
  · exact absurd byIpaddr.1 others.1
  · exact absurd byIndex.1 others.2
  · exact holds

end ListAddrByAttributes

def Globals.replyAt (g : Globals) : Except AddrError (Option Place) → Except AddrError AddrsReply
  | .error c => .error c
  | .ok none => .error .noEnt
  | .ok (some p) =>
    match g.entry p with
    | none => .error .fault
    | some exp => if exp.hostUuid = 0 then .error .noEnt else .ok exp.reply

theorem getAddrsU_eq (r : ListAddrByAttributes) (s : TableState) :
    ((getAddrsU r).exec s).1 = (r.find.exec s).2.mem.replyAt (r.find.exec s).1 := by
  unfold getAddrsU
  rw [exec_bind]
  rcases r.find.exec s with ⟨_ | _ | p, s'⟩
  · rfl
  · rfl
  simp only [exec_bind, exec_get, Globals.replyAt]
  cases s'.mem.entry p with
  | none => rfl
  | some exp =>
    simp only [exec_deref_some]
    split <;> rfl

namespace Globals

variable {g : Globals} {r : ListAddrByAttributes}

theorem replyAt_entry {p : Place} {exp : ExtentAddr} (there : g.entry p = some exp) :
    g.replyAt (.ok (some p)) = if exp.hostUuid = 0 then .error .noEnt else .ok exp.reply := by
  simp only [replyAt, there]

theorem Registered.met {p : Place} {exp : ExtentAddr} (registered : g.Registered p exp) (wanted : r.Wants p exp) :
    AddrsMet g r (g.replyAt (.ok (some p))) := by
  rw [replyAt_entry registered.entry, if_neg registered.uuid]
  exact ⟨p, exp, registered, wanted, exp.reply_tells⟩

theorem loaded_le : g.loaded ≤ maxAddrExtBlks := by
  have short := ( takeWhile_prefix (fun base => (g.exAddr base).isSome) (l := List.range maxAddrExtBlks)).length_le
  rwa [length_range] at short

theorem takeWhile_loaded : (List.range maxAddrExtBlks).takeWhile (fun base => (g.exAddr base).isSome) = List.range g.loaded := by
  have front := List.prefix_iff_eq_take.1 ( takeWhile_prefix (fun base => (g.exAddr base).isSome)
    (l := List.range maxAddrExtBlks))
  rw [take_range] at front
  exact front.trans (congrArg List.range (Nat.min_eq_left loaded_le))

theorem mem_loaded {base : Nat} :
    base ∈ (List.range maxAddrExtBlks).takeWhile (fun base => (g.exAddr base).isSome) ↔ base < g.loaded := by
  rw [takeWhile_loaded, mem_range]

theorem loaded_there {base : Nat} (before : base < g.loaded) : ∃ block, g.exAddr base = some block := by
  refine Option.isSome_iff_exists.1 ?_
  exact mem_takeWhile_imp (p := fun base => (g.exAddr base).isSome) (mem_loaded.2 before)

theorem getLast_loaded : ((List.range maxAddrExtBlks).takeWhile fun base => (g.exAddr base).isSome).getLast? =
      if g.loaded = 0 then none else some (g.loaded - 1) := by
  rw [takeWhile_loaded, getLast?_range]

theorem ipaddr_met (by_ : r.ByIpaddr) :
    AddrsMet g r (g.replyAt (g.scanBlocks r.ipaddr (List.range maxAddrExtBlks) none)) ↔ g.IpaddrMet r.ipaddr := by
  have noReply : AddrsMet g r (.error .noEnt) ↔ ∀ p exp, g.Registered p exp → r.ipaddr ∉ exp.list := by
    simp only [AddrsMet, wants_of_ipaddr by_, ne_eq, reduceCtorEq, not_false_eq_true, implies_true, and_true]
  have ended := scanBlocks_end g r.ipaddr (List.range maxAddrExtBlks) none
  generalize g.scanBlocks r.ipaddr (List.range maxAddrExtBlks) none = result at ended ⊢
  cases ended with
  | found base i block inside first last there used holds =>
    have entry : g.entry (base, i) = some (block.server i) := by simp [Globals.entry, there]
    have registered : g.Registered (base, i) (block.server i) :=
      ⟨List.mem_range.1 ( takeWhile_prefix _ |>.subset inside), first, last, entry, used⟩
    exact iff_of_true (registered.met ((wants_of_ipaddr by_).2 holds)) (.inl ⟨_, _, registered, holds, mem_loaded.1 inside⟩)
  | missing vain short exp left =>
    have notBefore : ¬ ∃ p exp, g.Registered p exp ∧ r.ipaddr ∈ exp.list ∧ p.1 < g.loaded := by
      rintro ⟨p, exp, registered, holds, before⟩
      exact vain p.1 (mem_loaded.2 before) p.2 exp registered holds
    have notAll : g.loaded ≠ maxAddrExtBlks := by
      intro all
      refine short (List.IsPrefix.eq_of_length ( takeWhile_prefix _) ?_)
      exact all
    unfold IpaddrMet
    rw [or_iff_right notBefore]
    rw [getLast_loaded] at left
    by_cases empty : g.loaded = 0
    · rw [if_pos empty] at left
      subst left
      exact noReply.trans (and_iff_left (.inl empty)).symm
    rw [if_neg empty, Option.map_some, Option.some_or] at left
    subst left
    have before : g.loaded - 1 < g.loaded := by omega
    obtain ⟨block, there⟩ := loaded_there before
    have entry : g.entry (g.loaded - 1, mhSrvPerBlk - 1) = some (block.server (mhSrvPerBlk - 1)) := by
      simp [Globals.entry, there]
    rw [replyAt_entry entry]
    split
    · next unused =>
      have last : ∀ exp, g.entry (g.loaded - 1, mhSrvPerBlk - 1) = some exp → exp.hostUuid = 0 := by
        intro exp same
        rwa [← Option.some.inj (entry.symm.trans same)]
      exact noReply.trans (and_iff_left (.inr (.inr last))).symm
    next used =>
    have registered : g.Registered (g.loaded - 1, mhSrvPerBlk - 1) (block.server (mhSrvPerBlk - 1)) :=
      ⟨Nat.lt_of_lt_of_le before loaded_le, show 1 ≤ mhSrvPerBlk - 1 by decide,
        show mhSrvPerBlk - 1 < mhSrvPerBlk by decide, entry, used⟩
    refine iff_of_false ?_ ?_
    · rintro ⟨p, exp, _, wanted, tells⟩
      have holds : r.ipaddr ∈ exp.list := (wants_of_ipaddr by_).1 wanted
      have told : r.ipaddr ∈ (block.server (mhSrvPerBlk - 1)).reply.bulkaddrs :=
        (tells.mem r.ipaddr).2 (exp.mem_list.1 holds)
      have holds' := ((block.server (mhSrvPerBlk - 1)).reply_tells.mem r.ipaddr).1 told
      exact vain _ (mem_loaded.2 before) _ _ registered ((ExtentAddr.mem_list _).2 holds')
    · rintro ⟨_, none_ | all | unused⟩
      · exact empty none_
      · exact notAll all
      · exact used (unused _ entry)
  | all vain there =>
    have none_ : ∀ p exp, g.Registered p exp → r.ipaddr ∉ exp.list := fun p exp registered =>
      vain p.1 (List.mem_range.2 registered.base) p.2 exp registered
    have loaded : g.loaded = maxAddrExtBlks := by
      unfold Globals.loaded
      rw [List.takeWhile_eq_self_iff.2 (by simpa using there), length_range]
    exact iff_of_true (noReply.2 none_) (.inr ⟨none_, .inr (.inl loaded)⟩)

theorem index_met (by_ : r.ByIndex) : AddrsMet g r (g.replyAt (g.placeOfIndex r.index)) := by
  have refused {c : AddrError} (known : c ≠ .fault)
      (none_ : ∀ p exp, g.Registered p exp → r.index ≠ p.1 * mhSrvPerBlk + p.2) : AddrsMet g r (.error c) := by
    refine ⟨?_, known, ?_⟩
    · intro p exp registered wanted
      exact none_ p exp registered ((wants_of_index by_).1 wanted)
    · intro byIpaddr
      exact absurd byIpaddr.1 fun has => by_.2 (has_or.2 (.inl has))
  have place {p : Place} {exp : ExtentAddr} (registered : g.Registered p exp) (same : r.index = p.1 * mhSrvPerBlk + p.2) :
      1 ≤ r.index ∧ r.index < maxAddrExtBlks * mhSrvPerBlk ∧ r.index.toNat / mhSrvPerBlk = p.1 ∧
        r.index.toNat % mhSrvPerBlk = p.2 := by
    have base := registered.base
    have first := registered.first
    have last := registered.last
    unfold mhSrvPerBlk at last same ⊢
    omega
  unfold placeOfIndex
  split
  · next range =>
    refine refused (by decide) fun p exp registered same => ?_
    have inside := place registered same
    omega
  next range =>
  split
  · next zero =>
    refine refused (by decide) fun p exp registered same => ?_
    have first := registered.first
    have inside := place registered same
    omega
  next zero =>
  split
  · next missing =>
    refine refused (by decide) fun p exp registered same => ?_
    have entry := registered.entry
    rw [Globals.entry, ← (place registered same).2.2.1, missing] at entry
    cases entry
  next there =>
  obtain ⟨block, there⟩ := Option.ne_none_iff_exists'.1 there
  have entry : g.entry (r.index.toNat / mhSrvPerBlk, r.index.toNat % mhSrvPerBlk) =
      some (block.server (r.index.toNat % mhSrvPerBlk)) := by simp [Globals.entry, there]
  by_cases unused : (block.server (r.index.toNat % mhSrvPerBlk)).hostUuid = 0
  · rw [replyAt_entry entry, if_pos unused]
    refine refused (by decide) fun p exp registered same => ?_
    obtain ⟨_, _, base, index⟩ := place registered same
    have entry' := registered.entry
    rw [show p = (_, _) from Prod.ext base.symm index.symm, entry] at entry'
    cases entry'
    exact registered.uuid unused
  refine Registered.met ⟨?_, Nat.pos_of_ne_zero zero, Nat.mod_lt _ (by decide), entry, unused⟩
    ((wants_of_index by_).2 ?_)
  · unfold maxAddrExtBlks mhSrvPerBlk at range
    unfold maxAddrExtBlks mhSrvPerBlk
    simp only
    omega
  · unfold mhSrvPerBlk
    simp only
    omega

variable {s : TableState} {first : ExtentBlock}

theorem getExtentBlock_reading (reading : s.writes = 0) (there : s.mem.exAddr 0 = some first) :
    (first.contaddrs 0 ≠ 0 → (getExtentBlock 0).exec s = (.ok (), s)) ∧
      (first.contaddrs 0 = 0 → ((getExtentBlock 0).exec s).1 = .error .io) := by
  constructor
  · intro made
    simp [getExtentBlock, exec_bind, there, Globals.contaddr, made]
  · intro fresh
    simp [getExtentBlock, exec_bind, exec_vlwrite, there, Globals.contaddr, fresh, reading]

theorem findExtentBlock_reading (reading : s.writes = 0) (uuid : Uuid) (there : s.mem.exAddr 0 = some first) :
    (s.mem.cheader.sit = 0 ∧ s.mem.contaddr 0 = some 0 → ((findExtentBlock uuid false none).exec s).1 = .error .io) ∧
      (¬ (s.mem.cheader.sit = 0 ∧ s.mem.contaddr 0 = some 0) →
        (findExtentBlock uuid false none).exec s = (s.mem.findUuid uuid slots, s)) := by
  obtain ⟨made, fresh⟩ := getExtentBlock_reading reading there
  have contaddr : s.mem.contaddr 0 = some (first.contaddrs 0) := by simp [Globals.contaddr, there]
  constructor
  · rintro ⟨sit, zero⟩
    rw [contaddr, Option.some.injEq] at zero
    have failed := fresh zero
    unfold findExtentBlock
    simp only [exec_bind, exec_get, sit, if_true]
    revert failed
    rcases (getExtentBlock 0).exec s with ⟨_ | _, s'⟩
    · intro failed
      cases failed
      rfl
    · intro failed
      cases failed
  · intro loaded
    by_cases sit : s.mem.cheader.sit = 0
    · have done := made fun zero => loaded ⟨sit, by rw [contaddr, zero]⟩
      unfold findExtentBlock
      simp only [exec_bind, exec_get, sit, if_true, done]
      rcases s.mem.findUuid uuid slots with _ | _ | p <;> rfl
    · unfold findExtentBlock
      simp only [exec_bind, exec_get, sit, if_false]
      rcases s.mem.findUuid uuid slots with _ | _ | p <;> rfl

theorem uuid_noReply (by_ : r.ByUuid) {c : AddrError} (known : c ≠ .fault) :
    AddrsMet g r (.error c) ↔ ∀ p exp, g.Registered p exp → exp.hostUuid ≠ r.uuid := by
  have notByIpaddr : ¬ r.ByIpaddr := fun byIpaddr => by_.2 (has_or.2 (.inl byIpaddr.1))
  simp only [AddrsMet, wants_of_uuid by_, ne_eq, known, not_false_eq_true, notByIpaddr, false_implies, and_true]

theorem uuid_met (reading : s.writes = 0) (by_ : r.ByUuid) (there : s.mem.exAddr 0 = some first) :
    AddrsMet s.mem r (((findExtentBlock r.uuid false none).exec s).2.mem.replyAt
      ((findExtentBlock r.uuid false none).exec s).1) ↔ s.mem.UuidMet r.uuid := by
  have noReply {c : AddrError} (known : c ≠ .fault) := uuid_noReply (g := s.mem) by_ known
  obtain ⟨failed, found⟩ := findExtentBlock_reading reading r.uuid there
  unfold UuidMet
  by_cases fresh : s.mem.cheader.sit = 0 ∧ s.mem.contaddr 0 = some 0
  · rw [failed fresh, if_pos (.inr fresh)]
    exact noReply (by decide)
  rw [found fresh, if_neg (by simp only [there, reduceCtorEq, false_or]; exact fresh), findUuid_eq]
  cases reacting : slots.find? (s.mem.reacts r.uuid) with
  | none => exact noReply (by decide)
  | some i =>
    dsimp only
    by_cases outside : Outside (s.mem.hostAddress i)
    · rw [if_pos outside, extentAddr_outside outside]
      exact (noReply (by decide)).trans (and_iff_right outside).symm
    rw [if_neg outside]
    cases entry : s.mem.extentAddr (s.mem.hostAddress i) with
    | none => exact iff_of_false (fun met => met.2.1 rfl) (fun met => outside met.1)
    | some exp =>
      have reacts := find?_some reacting
      have same : exp.hostUuid = r.uuid := by
        rw [Globals.reacts, entry] at reacts
        simpa using (Bool.and_eq_true_iff.1 reacts).2
      dsimp only
      rw [replyAt_entry (extentAddr_some entry).2.2]
      split
      · next nil =>
        have zero : r.uuid = 0 := same.symm.trans nil
        refine iff_of_true ((noReply (by decide)).2 fun p exp' registered same' => ?_) (.inl zero)
        exact registered.uuid (same'.trans zero)
      next used =>
      rw [or_iff_right (fun nil => used (same.trans nil))]
      constructor
      · rintro ⟨p, exp', registered, _, tells⟩
        exact ⟨p, exp', registered, tells⟩
      · rintro ⟨p, exp', registered, tells⟩
        exact ⟨p, exp', registered, (wants_of_uuid by_).2 (tells.uuid.symm.trans same), tells⟩

end Globals

def LookupMet (g : Globals) (r : ListAddrByAttributes) : Prop :=
  (r.ByIpaddr → g.IpaddrMet r.ipaddr) ∧ (r.ByUuid → g.UuidMet r.uuid)

def addrsAt (r : ListAddrByAttributes) (s : TableState) : Except AddrError AddrsReply :=
  ((getAddrsU r).exec { s with writes := 0 }).1

/-- A lookup of addresses is right exactly in the states in which it is met. -/
theorem addrs_looked_up (s : TableState) (r : ListAddrByAttributes) : AddrsMet s.mem r (addrsAt r s) ↔ LookupMet s.mem r := by
  unfold addrsAt
  rw [getAddrsU_eq]
  generalize reads : { s with writes := 0 } = s'
  have mem : s.mem = s'.mem := by rw [← reads]
  have reading : s'.writes = 0 := by rw [← reads]
  rw [mem]
  clear reads mem
  have refused (notByIpaddr : ¬ r.ByIpaddr) (notByIndex : ¬ r.ByIndex) (notByUuid : ¬ r.ByUuid) :
      AddrsMet s'.mem r (.error .badMask) ↔ LookupMet s'.mem r := by
    refine iff_of_true ⟨?_, by decide, fun byIpaddr => absurd byIpaddr notByIpaddr⟩
      ⟨fun byIpaddr => absurd byIpaddr notByIpaddr, fun byUuid => absurd byUuid notByUuid⟩
    rintro p exp _ (⟨byIpaddr, _⟩ | ⟨byIndex, _⟩ | ⟨byUuid, _⟩)
    · exact notByIpaddr byIpaddr
    · exact notByIndex byIndex
    · exact notByUuid byUuid
  unfold ListAddrByAttributes.find
  rw [exec_bind]
  simp only [exec_get]
  by_cases ipaddr : r.has ipaddrBit
  · rw [if_pos ipaddr]
    have notByIndex : ¬ r.ByIndex := fun byIndex => byIndex.2 (has_or.2 (.inl ipaddr))
    have notByUuid : ¬ r.ByUuid := fun byUuid => byUuid.2 (has_or.2 (.inl ipaddr))
    by_cases others : r.has (indexBit ||| uuidBit)
    · rw [if_pos others]
      exact refused (fun byIpaddr => byIpaddr.2 others) notByIndex notByUuid
    · rw [if_neg others]
      refine (Globals.ipaddr_met ⟨ipaddr, others⟩).trans ?_
      exact ⟨fun met => ⟨fun _ => met, fun byUuid => absurd byUuid notByUuid⟩, fun met => met.1 ⟨ipaddr, others⟩⟩
  rw [if_neg ipaddr]
  have notByIpaddr : ¬ r.ByIpaddr := fun byIpaddr => ipaddr byIpaddr.1
  by_cases index : r.has indexBit
  · rw [if_pos index]
    have notByUuid : ¬ r.ByUuid := fun byUuid => byUuid.2 (has_or.2 (.inr index))
    by_cases others : r.has (ipaddrBit ||| uuidBit)
    · rw [if_pos others]
      exact refused notByIpaddr (fun byIndex => byIndex.2 others) notByUuid
    · rw [if_neg others]
      exact iff_of_true (Globals.index_met ⟨index, others⟩)
        ⟨fun byIpaddr => absurd byIpaddr notByIpaddr, fun byUuid => absurd byUuid notByUuid⟩
  rw [if_neg index]
  have notByIndex : ¬ r.ByIndex := fun byIndex => index byIndex.1
  by_cases uuid : r.has uuidBit
  · have byUuid : r.ByUuid := ⟨uuid, by rw [has_or, not_or]; exact ⟨ipaddr, index⟩⟩
    have met_iff : s'.mem.UuidMet r.uuid ↔ LookupMet s'.mem r :=
      ⟨fun met => ⟨fun byIpaddr => absurd byIpaddr notByIpaddr, fun _ => met⟩, fun met => met.2 byUuid⟩
    rw [if_pos uuid, if_neg byUuid.2, ← met_iff]
    cases there : s'.mem.exAddr 0 with
    | none =>
      rw [if_pos rfl, Globals.UuidMet, if_pos (.inl there)]
      exact Globals.uuid_noReply byUuid (by decide)
    | some first =>
      rw [if_neg (by simp)]
      exact Globals.uuid_met reading byUuid there
  · rw [if_neg uuid]
    exact refused notByIpaddr notByIndex fun byUuid => uuid byUuid.1

def fullBlock : ExtentBlock where
  flags := vlContBlock
  contaddrs base := if base = 0 then headerSize else 0
  server i :=
    if 1 ≤ i ∧ i < mhSrvPerBlk then
      { hostUuid := .ofNat 128 i, uniquifier := 1, addrs := fun j => if j = 0 then 0x0a000000 + .ofNat i else 0 }
    else {}

def fullTable : Globals where
  cheader := {
    vldbVersion := 4
    eofPtr := headerSize + vlAddrExtBlkSize
    ipMappedAddr := fun i => if i < 63 then extentHost 0 (i + 1) else 0
    sit := headerSize }
  hostAddress i := if i < 63 then extentHost 0 (i + 1) else 0
  exAddr base := if base = 0 then some fullBlock else none

def unknownAddr : ListAddrByAttributes := { mask := ipaddrBit, ipaddr := 0x0b000001 }

/-- The server at the last place is taken for one whose address no server has. -/
theorem unknown_addr_found : ¬ ∀ s r, AddrsMet s.mem r (addrsAt r s) := by
  intro all
  have met := all { mem := fullTable } unknownAddr
  have result : addrsAt unknownAddr { mem := fullTable } = .ok (fullBlock.server 63).reply := rfl
  rw [result] at met
  obtain ⟨⟨base, i⟩, exp, registered, wanted, _⟩ := met
  have holds : unknownAddr.ipaddr ∈ exp.list := (wants_of_ipaddr ⟨by decide, by decide⟩).1 wanted
  have entry := registered.entry
  rcases Nat.eq_zero_or_pos base with rfl | high
  · cases entry
    have none_ : ∀ i < mhSrvPerBlk, unknownAddr.ipaddr ∉ (fullBlock.server i).list := by decide +kernel
    exact none_ i registered.last holds
  · rw [Globals.entry, show fullTable.exAddr base = none from if_neg (Nat.ne_of_gt high)] at entry
    cases entry

end OpenAFS.Vlserver
