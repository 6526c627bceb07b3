import OpenAFS.Afs.Parking

namespace OpenAFS.Afs

open Function (update update_self update_of_ne)
open Lib List

namespace CbQueue

variable {C : VCaches} {s : CbQueue} {chain : Nat → List Nat} {place : Nat → Option Nat} {v secs : Nat}

def checkedVolume (s : CbQueue) (v : Nat) : Option Volume :=
  if (s.vcache v).readOnly then s.findVolume (s.vcache v).volume else none

def clears (s : CbQueue) (secs v : Nat) : Bool :=
  (s.vcache v).cbExpires < s.now + secs &&
    match s.checkedVolume v with
    | some tvp => !(s.now + secs < tvp.expireTime : Bool) && s.anyUp tvp
    | none => true

def checked (s : CbQueue) (secs v : Nat) : VCache :=
  if s.clears secs v then { s.vcache v with statd := false }
  else if (s.vcache v).cbExpires < s.now + secs then
    match s.checkedVolume v with
    | some tvp => if s.now + secs < tvp.expireTime then { s.vcache v with cbExpires := tvp.expireTime } else s.vcache v
    | none => s.vcache v
  else s.vcache v

def otherSlot (s : CbQueue) (cbExpires : Nat) : Option Nat :=
  if s.basetime < cbExpires ∧ CBHash (cbExpires - s.basetime) ≠ 0 ∧
      (CBHash (cbExpires - s.basetime) + s.base) % CBHTSIZE ≠ s.base then
    some ((CBHash (cbExpires - s.basetime) + s.base) % CBHTSIZE)
  else none

def placeAfter (s : CbQueue) (secs v : Nat) : Option Nat :=
  match s.otherSlot (s.checked secs v).cbExpires with
  | some slot => some slot
  | none => if s.clears secs v then none else some s.base

theorem expire_eq (soon : (s.vcache v).cbExpires < s.now + secs) : s.expire secs v = { s with
        links := if s.clears secs v then s.links.QRemove v else s.links
        vcache := update s.vcache v (s.checked secs v) } := by
  unfold expire checked clears checkedVolume
  rw [decide_eq_true soon, Bool.true_and]
  cases volume : (if (s.vcache v).readOnly then s.findVolume (s.vcache v).volume else none) with
  | none => rfl
  | some tvp =>
    by_cases later : s.now + secs < tvp.expireTime
    · simp [later, soon, setVCache]
    · cases up : s.anyUp tvp with
      | false => simp [later, soon, up]
      | true => simp [later, up, clearStatd, setVCache]

theorem checked_late (late : ¬ (s.vcache v).cbExpires < s.now + secs) :
    s.clears secs v = false ∧ s.checked secs v = s.vcache v := by
  have kept : s.clears secs v = false := by
    unfold clears
    rw [decide_eq_false late, Bool.false_and]
  refine ⟨kept, ?_⟩
  unfold checked
  rw [kept, if_neg Bool.false_ne_true, if_neg late]

def movedTo (l : Links) (v : Nat) : Option Nat → Links
  | some slot => (if l.prev v ≠ 0 then l.QRemove v else l).QAdd (head slot) v
  | none => l

theorem rehash_eq : s.rehash v = { s with links := movedTo s.links v (s.otherSlot (s.vcache v).cbExpires) } := by
  unfold rehash otherSlot
  by_cases late : s.basetime < (s.vcache v).cbExpires
  · by_cases away : CBHash ((s.vcache v).cbExpires - s.basetime) = 0
    · simp [away, movedTo]
    · by_cases other : (CBHash ((s.vcache v).cbExpires - s.basetime) + s.base) % CBHTSIZE = s.base
      · simp [other, movedTo]
      · simp [late, away, other, movedTo]
  · simp [late, movedTo]

theorem checkEntry_eq : s.checkEntry secs v = { s with
      links := movedTo (if s.clears secs v then s.links.QRemove v else s.links) v (s.otherSlot (s.checked secs v).cbExpires)
      vcache := update s.vcache v (s.checked secs v) } := by
  unfold checkEntry
  by_cases soon : (s.vcache v).cbExpires < s.now + secs
  · rw [if_pos soon, expire_eq soon, rehash_eq]
    simp only [update_self]
    rfl
  rw [if_neg soon, rehash_eq]
  rcases checked_late soon with ⟨kept, same⟩
  rw [same, kept, Function.update_eq_self]
  rfl

theorem checkEntry_placed (secs : Nat) (placed : Placed C s.links chain place) (small : s.base < CBHTSIZE) {before after : List Nat}
    (split : chain (head s.base) = before ++ v :: after) :
    ∃ l chain' kept, s.checkEntry secs v = { s with links := l, vcache := update s.vcache v (s.checked secs v) } ∧
      Placed C l chain' (update place v (s.placeAfter secs v)) ∧ chain' (head s.base) = before ++ kept := by
  have slotted : place v = some s.base := by
    rw [← placed.on s.base small, split]
    exact mem_append_right _ mem_cons_self
  have inside := (placed.known v _ slotted).2
  have removed := placed.remove slotted split
  rw [checkEntry_eq]
  unfold placeAfter
  cases moves : s.otherSlot (s.checked secs v).cbExpires with
  | none =>
    cases gone : s.clears secs v with
    | false =>
      refine ⟨_, chain, v :: after, rfl, ?_, split⟩
      show Placed C s.links chain (update place v (some s.base))
      rw [← slotted, Function.update_eq_self]
      exact placed
    | true =>
      refine ⟨_, _, after, rfl, removed, ?_⟩
      rw [update_self]
  | some slot =>
    have other : slot < CBHTSIZE ∧ slot ≠ s.base := by
      unfold otherSlot at moves
      rw [Option.ite_none_right_eq_some] at moves
      rcases moves with ⟨⟨-, -, differ⟩, same⟩
      rw [← Option.some.inj same]
      exact ⟨Nat.mod_lt _ size_pos, differ⟩
    -- whether or not it was taken off already, it is off its slot when it is put on the other
    have links : movedTo (if s.clears secs v then s.links.QRemove v else s.links) v (some slot) =
        (s.links.QRemove v).QAdd (head slot) v := by
      unfold movedTo
      cases gone : s.clears secs v with
      | false =>
        have linked : s.links.prev v ≠ 0 := by
          intro zero
          rw [placed.prev_eq_zero inside, slotted] at zero
          cases zero
        simp [linked]
      | true =>
        have unlinked : (s.links.QRemove v).prev v = 0 := by
          rw [removed.prev_eq_zero inside, update_self]
        simp [unlinked]
    have added := removed.add inside (update_self ..) other.1
    rw [Function.update_idem] at added
    refine ⟨_, _, after, rfl, links ▸ added, ?_⟩
    rw [update_of_ne (fun same => other.2 (head_inj same).symm), update_self]

theorem clears_with (l : Links) {f : Nat → VCache} (same : f v = s.vcache v) :
    ({ s with links := l, vcache := f } : CbQueue).clears secs v = s.clears secs v := by
  unfold clears checkedVolume
  simp only [same]
  rfl

theorem checked_with (l : Links) {f : Nat → VCache} (same : f v = s.vcache v) :
    ({ s with links := l, vcache := f } : CbQueue).checked secs v = s.checked secs v := by
  unfold checked checkedVolume
  rw [clears_with l same]
  simp only [same]

theorem placeAfter_with (l : Links) {f : Nat → VCache} (same : f v = s.vcache v) :
    ({ s with links := l, vcache := f } : CbQueue).placeAfter secs v = s.placeAfter secs v := by
  unfold placeAfter otherSlot
  rw [clears_with l same, checked_with l same]

theorem checkLoop_spec (secs : Nat) (before : List Nat) : ∀ {s : CbQueue} {chain : Nat → List Nat} {place : Nat → Option Nat}
    {kept : List Nat} {count : Nat}, Placed C s.links chain place → s.base < CBHTSIZE →
    chain (head s.base) = before ++ kept → before.length < count →
    ∃ l chain', checkLoop secs count s (before.getLast?.getD (head s.base)) =
        (false, { s with links := l, vcache := fun w => if w ∈ before then s.checked secs w else s.vcache w }) ∧
      Placed C l chain' fun w => if w ∈ before then s.placeAfter secs w else place w := by
  induction before using List.reverseRecOn with
  | nil =>
    intro s chain place kept count placed _ _ enough
    cases count with
    | zero => cases enough
    | succ count =>
      refine ⟨s.links, chain, ?_, ?_⟩
      · show (if head s.base = head s.base then (false, s) else _) = _
        rw [if_pos rfl]
        simp only [not_mem_nil, if_false]
      · exact placed
  | append_singleton before v ih =>
    intro s chain place kept count placed small split enough
    rw [length_append, length_singleton] at enough
    cases count with
    | zero => cases enough
    | succ count =>
      rw [append_assoc, singleton_append] at split
      have path := placed.queues.path _ (head_mem small)
      have once := placed.queues.nodup_cons (head_mem small)
      rw [split] at path once
      have notHead : v ≠ head s.base := by
        rintro same
        apply (List.nodup_cons.mp once).1
        rw [← same]
        exact mem_append_right _ mem_cons_self
      have fresh : v ∉ before := by
        intro inside
        exact (List.nodup_append.mp (List.nodup_cons.mp once).2).2.2 v inside v mem_cons_self rfl
      have back : s.links.prev v = before.getLast?.getD (head s.base) := by
        have first := (Path.append.mp path).1
        cases before using List.reverseRecOn with
        | nil => exact first.2
        | append_singleton early b =>
          rw [getLast?_concat]
          exact first.prev_last
      rcases checkEntry_placed secs placed small split with ⟨l, chain', kept', entry, placed', split'⟩
      rcases ih (s := { s with links := l, vcache := update s.vcache v (s.checked secs v) }) placed' small split'
        (by omega : before.length < count) with ⟨l', chain'', looped, final⟩
      have others : ∀ w ∈ before, update s.vcache v (s.checked secs v) w = s.vcache w := by
        intro w inside
        apply update_of_ne
        rintro rfl
        exact fresh inside
      refine ⟨l', chain'', ?_, ?_⟩
      · rw [getLast?_concat, Option.getD_some, checkLoop, if_neg notHead, entry, back, looped]
        congr 2
        funext w
        by_cases inside : w ∈ before
        · rw [if_pos inside, if_pos (mem_append_left _ inside), checked_with l (others w inside)]
        rw [if_neg inside]
        by_cases this : w = v
        · subst this
          rw [if_pos (mem_append_right _ mem_cons_self)]
          exact update_self ..
        · rw [if_neg (by simp [inside, this])]
          exact update_of_ne this ..
      · convert final using 2 with w
        by_cases inside : w ∈ before
        · rw [if_pos inside, if_pos (mem_append_left _ inside), placeAfter_with l (others w inside)]
        rw [if_neg inside]
        by_cases this : w = v
        · subst this
          rw [if_pos (mem_append_right _ mem_cons_self), update_self]
        · rw [if_neg (by simp [inside, this]), update_of_ne this]

theorem checkCallbacks_spec (secs : Nat) (parked : s.Parked C place) (small : s.base < CBHTSIZE) : ∃ l, s.checkCallbacks C secs =
        (false, { s with
          links := l
          vcache := fun w => if place w = some s.base then s.checked secs w else s.vcache w }) ∧
      CbQueue.Parked C { s with
          links := l
          vcache := fun w => if place w = some s.base then s.checked secs w else s.vcache w }
        fun w => if place w = some s.base then s.placeAfter secs w else place w := by
  rcases parked with ⟨chain, placed⟩
  have path := placed.queues.path _ (head_mem small)
  have short := placed.length_le small
  have start : s.links.prev (head s.base) = (chain (head s.base)).getLast?.getD (head s.base) := by
    rcases eq_nil_or_concat' (chain (head s.base)) with split | ⟨early, b, split⟩
    · rw [split] at path ⊢
      exact path.2
    · rw [split] at path ⊢
      rw [getLast?_concat]
      exact path.prev_last
  rcases checkLoop_spec secs _ placed small (append_nil _).symm
    (by omega : (chain (head s.base)).length < C.CBQ_LIMIT + 1) with ⟨l, chain', looped, placed'⟩
  simp only [placed.on s.base small] at looped placed'
  refine ⟨l, ?_, chain', placed'⟩
  unfold checkCallbacks
  rw [start, looped]

structure Thinner (C : VCaches) (s s' : CbQueue) (place place' : Nat → Option Nat) : Prop where
  parked : s'.Parked C place'
  base : s'.base = s.base
  basetime : s'.basetime = s.basetime
  now : s'.now = s.now
  each : ∀ w, place' w = place w ∧ s'.vcache w = s.vcache w ∨ place' w = none ∧ (s'.vcache w).statd = false

namespace Thinner

variable {s' s'' : CbQueue} {place' place'' : Nat → Option Nat}

theorem refl (parked : s.Parked C place) : Thinner C s s place place :=
  ⟨parked, rfl, rfl, rfl, fun _ => Or.inl ⟨rfl, rfl⟩⟩

theorem trans (first : Thinner C s s' place place') (second : Thinner C s' s'' place' place'') :
    Thinner C s s'' place place'' := by
  refine ⟨second.parked, second.base.trans first.base, second.basetime.trans first.basetime, second.now.trans first.now, ?_⟩
  intro w
  rcases second.each w with ⟨slot, same⟩ | gone
  · rcases first.each w with ⟨slot', same'⟩ | ⟨off, cleared⟩
    · exact Or.inl ⟨slot.trans slot', same.trans same'⟩
    · exact Or.inr ⟨slot.trans off, same ▸ cleared⟩
  · exact Or.inr gone

theorem gone (thinner : Thinner C s s' place place') (off : place v = none ∧ (s.vcache v).statd = false) :
    place' v = none ∧ (s'.vcache v).statd = false := by
  rcases thinner.each v with ⟨slot, same⟩ | gone
  · exact ⟨slot.trans off.1, same ▸ off.2⟩
  · exact gone

theorem dequeue (parked : s.Parked C place) (inside : v ∈ C.cells) (vc : VCache) (cleared : vc.statd = false) :
    Thinner C s ((s.setVCache v vc).dequeueCallback v) place (update place v none) ∧ update place v none v = none ∧
      (((s.setVCache v vc).dequeueCallback v).vcache v).statd = false := by
  have same : (s.setVCache v vc).dequeueCallback v =
      { s with links := ((s.setVCache v vc).dequeueCallback v).links, vcache := update s.vcache v vc } := by
    unfold dequeueCallback
    split
    · rfl
    · rfl
  have gone : update place v none v = none ∧ (((s.setVCache v vc).dequeueCallback v).vcache v).statd = false := by
    rw [same]
    refine ⟨update_self .., ?_⟩
    show (update s.vcache v vc v).statd = false
    rw [update_self]
    exact cleared
  have moved : (s.setVCache v vc).Parked C place := parked
  refine ⟨⟨dequeueCallback_parked moved inside, ?_, ?_, ?_, ?_⟩, gone⟩
  · rw [same]
  · rw [same]
  · rw [same]
  intro w
  by_cases this : w = v
  · subst this
    exact Or.inr gone
  · rw [same]
    exact Or.inl ⟨update_of_ne this .., update_of_ne this ..⟩

theorem foldl {f : CbQueue → Nat → CbQueue} {hit : Prop}
    (step : ∀ s place v, s.Parked C place → v ∈ C.cells → ∃ place', Thinner C s (f s v) place place' ∧
      (hit → place' v = none ∧ ((f s v).vcache v).statd = false)) (l : List Nat) (known : ∀ v ∈ l, v ∈ C.cells) :
    ∀ {s : CbQueue} {place : Nat → Option Nat}, s.Parked C place → ∃ place', Thinner C s (l.foldl f s) place place' ∧
      (hit → ∀ v ∈ l, place' v = none ∧ ((l.foldl f s).vcache v).statd = false) := by
  induction l with
  | nil =>
    intro s place parked
    exact ⟨place, refl parked, fun _ v inside => absurd inside not_mem_nil⟩
  | cons v l ih =>
    intro s place parked
    rcases step s place v parked (known v mem_cons_self) with ⟨place', first, gone⟩
    rcases ih (fun w inside => known w (mem_cons_of_mem _ inside)) first.parked with ⟨place'', second, gone'⟩
    refine ⟨place'', first.trans second, ?_⟩
    intro all w inside
    rcases List.mem_cons.mp inside with rfl | later
    · exact second.gone (gone all)
    · exact gone' all w later

end Thinner

theorem flushCB_thinner (parked : s.Parked C place) (inside : v ∈ C.cells) :
    ∃ place', Thinner C s (s.flushCB v) place place' ∧ place' v = none ∧ ((s.flushCB v).vcache v).statd = false :=
  ⟨_, Thinner.dequeue parked inside _ rfl⟩

theorem flushCBs_spec (parked : s.Parked C place) : (s.flushCBs C).Parked C (fun _ => none) ∧
    (s.flushCBs C).base = 0 ∧ (s.flushCBs C).basetime = s.now ∧ (s.flushCBs C).now = s.now ∧
    ∀ v ∈ C.cells, ((s.flushCBs C).vcache v).statd = false := by
  have step : ∀ s place v, CbQueue.Parked C s place → v ∈ C.cells → ∃ place', Thinner C s (s.flushCB v) place place' ∧
        (True → place' v = none ∧ ((s.flushCB v).vcache v).statd = false) := by
    intro s place v parked inside
    rcases flushCB_thinner parked inside with ⟨place', thinner, gone⟩
    exact ⟨place', thinner, fun _ => gone⟩
  rcases Thinner.foldl step C.cells (fun v inside => inside) parked with ⟨place', thinner, gone⟩
  have empty : ∀ v, place' v = none := by
    intro v
    cases slotted : place' v with
    | none => rfl
    | some i =>
      rcases thinner.parked with ⟨chain, placed⟩
      rw [(gone trivial v (placed.known v i slotted).2).1] at slotted
      cases slotted
  have off : ∀ c, c ∉ buckets → (C.cells.foldl flushCB s).links.next c = 0 ∧ (C.cells.foldl flushCB s).links.prev c = 0 := by
    intro c cell
    rcases thinner.parked with ⟨chain, placed⟩
    exact placed.queues.off c cell (placed.nowhere (empty c))
  have cleared : ∀ v ∈ C.cells, ((C.cells.foldl flushCB s).vcache v).statd = false :=
    fun v inside => (gone trivial v inside).2
  have now := thinner.now
  unfold flushCBs
  generalize C.cells.foldl flushCB s = t at off cleared now
  have init := Placed.init (C := C) off
  unfold initCBQueue
  generalize List.foldl (fun (l : Links) i => l.QInit (head i)) t.links (List.range CBHTSIZE) = l at init
  exact ⟨⟨_, init⟩, rfl, now, now, cleared⟩

theorem flushServerCBs_thinner (parked : s.Parked C place) (srvp : Nat) :
    ∃ place', Thinner C s (s.flushServerCBs C srvp) place place' := by
  have step : ∀ s place v, CbQueue.Parked C s place → v ∈ C.cells → ∃ place', Thinner C s (flushServerCB srvp s v) place place' ∧
        (False → place' v = none ∧ ((flushServerCB srvp s v).vcache v).statd = false) := by
    intro s place v parked inside
    unfold flushServerCB
    by_cases given : (s.vcache v).callback = srvp
    · rw [if_pos given]
      rcases flushCB_thinner parked inside with ⟨place', thinner, -⟩
      exact ⟨place', thinner, False.elim⟩
    · rw [if_neg given]
      exact ⟨place, Thinner.refl parked, False.elim⟩
  rcases Thinner.foldl step C.cells (fun v inside => inside) parked with ⟨place', thinner, -⟩
  exact ⟨place', thinner⟩

theorem bump_parked (parked : s.Parked C place) (small : s.base < CBHTSIZE) :
    s.bump.Parked C fun v => if place v = some s.base then some ((s.base + 1) % CBHTSIZE) else place v := by
  rcases parked with ⟨chain, placed⟩
  have small' : (s.base + 1) % CBHTSIZE < CBHTSIZE := Nat.mod_lt _ size_pos
  have other : s.base ≠ (s.base + 1) % CBHTSIZE := by
    unfold CBHTSIZE at *
    omega
  have path := placed.queues.path _ (head_mem small)
  rcases eq_nil_or_concat' (chain (head s.base)) with split | ⟨early, b, split⟩
  · rw [split] at path
    have empty : s.links.QEmpty (head s.base) = true := decide_eq_true path.2
    have links : s.bump.links = s.links := if_pos empty
    refine ⟨chain, ?_⟩
    convert placed using 2 with v
    rw [if_neg]
    intro slotted
    rw [← placed.on s.base small, split] at slotted
    cases slotted
  have some' : chain (head s.base) ≠ [] := by
    rw [split]
    exact append_ne_nil_of_right_ne_nil _ (cons_ne_nil _ _)
  have full : s.links.QEmpty (head s.base) = false := by
    rw [split] at path
    apply decide_eq_false
    rw [path.prev_last]
    rintro rfl
    apply placed.queues.head_notMem (head_mem small) (head_mem small)
    rw [split]
    exact mem_append_right _ mem_cons_self
  have links : s.bump.links = s.links.QCat (head s.base) (head ((s.base + 1) % CBHTSIZE)) :=
    if_neg (full ▸ Bool.false_ne_true)
  exact ⟨_, links ▸ placed.cat small small' other some'⟩

theorem bumpBase_induct {P : CbQueue → Prop}
    (step : ∀ s, P s → s.basetime + (CBHTSLOTLEN - 20) ≤ s.now → P s.bump) (holds : P s) :
    P s.bumpBase.2 ∧ s.bumpBase.2.now < s.bumpBase.2.basetime + (CBHTSLOTLEN - 20) ∧ s.bumpBase.2.now = s.now ∧
      s.bumpBase.2.vcache = s.vcache := by
  have loop : ∀ fuel s, P s → s.now < s.basetime + 127 * fuel → P (bumpLoop fuel s).2 ∧
      (bumpLoop fuel s).2.now < (bumpLoop fuel s).2.basetime + (CBHTSLOTLEN - 20) ∧
      (bumpLoop fuel s).2.now = s.now ∧ (bumpLoop fuel s).2.vcache = s.vcache := by
    intro fuel
    induction fuel with
    | zero =>
      intro s holds enough
      exact ⟨holds, by show s.now < s.basetime + 108; omega, rfl, rfl⟩
    | succ fuel ih =>
      intro s holds enough
      unfold bumpLoop
      by_cases behind : s.basetime + (CBHTSLOTLEN - 20) ≤ s.now
      · rw [if_pos behind]
        apply ih s.bump (step s holds behind)
        show s.now < s.basetime + 127 + 127 * fuel
        omega
      · rw [if_neg behind]
        exact ⟨holds, Nat.lt_of_not_le behind, rfl, rfl⟩
  apply loop _ s holds
  omega

end CbQueue

end OpenAFS.Afs
