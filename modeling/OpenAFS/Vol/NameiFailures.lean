import OpenAFS.Vol.NameiOps

namespace OpenAFS.Vol.Namei

/-- The calls that count in the table, before the file itself is unlinked. -/
def countOps : List Op := [.open, .lock, .seek, .read] ++ setOps

/-- The calls that leave a new table without its count -/
def firstOps : List Op := [.setLock, .setSeek, .setRead false, .setRead true]

/-- The calls of `namei_GetFreeTag` -/
def tagOps : List Op := [.lock, .seek, .read, .seekBack, .write]

section

variable (fail : Option Op) (lh : Name) (d : Disk)

/-- A tag is not refused while the table counts itself, and a new file gets its owner. -/
def CreateSpared (p1 p2 p3 p4 : BitVec 32) : Prop :=
  if p2 = -1 then
    d (p4, makeSpecIno p1 p3) = none → ¬ Hits fail [.chown, .chmod] ∧
      (p3.toNat = viLinkTable → ¬ Hits fail firstOps)
  else p2.setWidth 64 &&& vnodeMask = p2.setWidth 64 → ¬ Hits fail [.partition] → ∀ f, d lh = some f →
    match freeColumn (f.row p2.toNat) with
    | none => f.links 0 = 0
    | some col => (Hits fail (.open :: tagOps) → f.links 0 = 0) ∧
        (Hits fail [.chown, .chmod] → (d (p1, dataIno p2 p3 col)).isSome)

/-- A file whose last link has been taken can be unlinked. -/
def DecSpared (ino : Inode) (p1 : BitVec 32) : Prop :=
  if ino &&& inodeSpecial = inodeSpecial then
    tagOf ino = viLinkTable → Hits fail [.unlink] → ∀ f, d (lh.1, ino) = some f → f.parm = p1 → f.links 0 ≠ 1
  else ∀ f, d lh = some f → f.links ino = 1 → Hits fail [.unlink] ∨ d (lh.1, ino) = none → Hits fail countOps

def Call.Spared : Call → Prop
  | .inc _ => True
  | .icreate _ p1 p2 p3 p4 => CreateSpared fail lh d p1 p2 p3 p4
  | .dec ino p1 => DecSpared fail lh d ino p1

end

section

variable {fail : Option Op} {lh name : Name} {d : Disk} {f : File} {ino : Inode}

theorem counted {count : Row} (read : getLinkCount fail f ino = some count) : count = f.links ino := by
  unfold getLinkCount at read
  grind

theorem inc_keeps (ino : Inode) (failed : (inc fail lh d ino).1 ≠ 0) : Kept d (inc fail lh d ino).2 := by
  revert failed
  unfold inc
  by_cases nothing : ino &&& inodeSpecial = inodeSpecial ∧ tagOf ino ≠ viLinkTable
  · rw [if_pos nothing]
    exact fun _ => Kept.refl d
  rw [if_neg nothing]
  generalize (if ino &&& inodeSpecial = inodeSpecial then 0 else ino) = ino
  cases found : ihOpen fail d lh with
  | none => exact fun _ => Kept.refl d
  | some f =>
    dsimp only
    cases read : getLinkCount fail f ino with
    | none => exact fun _ => Kept.refl d
    | some count =>
      dsimp only
      intro failed
      refine Kept.update (opened found).1 ?_
      rcases setLinkCount_cases fail f ino (if count = 7 then 7 else count + 1) with ⟨-, same⟩ | ⟨-, written⟩
      · rw [same]
        exact fun _ => rfl
      rw [written] at failed ⊢
      have full : count = 7 := by
        by_contra few
        exact failed (if_neg fun no => no.elim few (Int.lt_irrefl 0))
      rw [if_pos full, ← full, counted read]
      exact f.setLinks_same ino

theorem takeLink_cases (opens : ¬ Hits fail [.open]) (f : File) (ino : Inode) :
    takeLink fail f ino = none ∧ (f.links ino ≠ 0 → Hits fail countOps) ∨
    ∃ f', takeLink fail f ino = some (f.links ino, f') ∧
      (f' = f ∧ Hits fail countOps ∨
        ¬ Hits fail countOps ∧ f' = f.setLinks ino (if f.links ino = 0 then 0 else f.links ino - 1)) := by
  unfold takeLink getLinkCount
  by_cases fails : Hits fail [.lock, .seek, .read]
  · rw [if_pos fails]
    exact .inl ⟨rfl, fun _ => fails.mono (by decide)⟩
  rw [if_neg fails]
  by_cases inside : vnode ino < f.rows.length
  · rw [if_pos inside]
    dsimp only
    rcases setLinkCount_cases fail f ino (if f.links ino = 0 then 0 else f.links ino - 1) with ⟨hits, same⟩ | ⟨fine, written⟩
    · by_cases negative : (setLinkCount fail f ino (if f.links ino = 0 then 0 else f.links ino - 1) true).1 < 0
      · rw [if_pos negative]
        exact .inl ⟨rfl, fun _ => hits.mono (by decide)⟩
      · rw [if_neg negative, same]
        exact .inr ⟨f, rfl, .inl ⟨rfl, hits.mono (by decide)⟩⟩
    rw [written, if_neg (Int.lt_irrefl 0)]
    refine .inr ⟨_, rfl, .inr ⟨fun hits => ?_, rfl⟩⟩
    rcases (hits_append ..).mp hits with early | late
    · exact ((hits_append [.open] _).mp early).elim opens fails
    · exact fine late
  · rw [if_neg inside]
    exact .inl ⟨rfl, fun some => absurd (File.links_outside (Nat.not_lt.mp inside)) some⟩

theorem taken_keeps_iff (was : d name = some f) (opens : ¬ Hits fail [.open]) (ino : Inode) (other : Name)
    (last : Row → Prop) [DecidablePred last] (only : ∀ count, last count → count = 1 ∨ count = 0) (one : last 1)
    (result : Int × Disk) (is : result = match takeLink fail f ino with
      | none => (-1, d)
      | some (count, f') =>
        if last count then unlink fail (Function.update d name (some f')) other else (0, Function.update d name (some f'))) :
    (result.1 ≠ 0 → Kept d result.2) ↔ (f.links ino = 1 → Hits fail [.unlink] ∨ d other = none → Hits fail countOps) := by
  subst is
  rcases takeLink_cases opens f ino with ⟨refused, why⟩ | ⟨f', taken, how⟩
  · rw [refused]
    exact iff_of_true (fun _ => Kept.refl d) fun one _ => why (by rw [one]; decide)
  rw [taken]
  dsimp only
  by_cases lasts : last (f.links ino)
  · have kept : Kept d (Function.update d name (some f')) ↔ (f.links ino = 1 → Hits fail countOps) := by
      rcases how with ⟨rfl, hits⟩ | ⟨fine, rfl⟩
      · exact iff_of_true (Kept.update was fun _ => rfl) fun _ => hits
      rcases only _ lasts with few | few
      · rw [few, show (if (1 : Row) = 0 then 0 else (1 : Row) - 1) = 0 from rfl, Kept.zeroed_iff was, few]
        exact iff_of_false (by decide) fun no => fine (no rfl)
      · rw [few, if_pos rfl, Kept.zeroed_iff was]
        exact iff_of_true few fun no => absurd no (by decide)
    rw [if_pos lasts]
    have there : (Function.update d name (some f') other).isNone ↔ d other = none := by
      rw [Option.isNone_iff_eq_none, ← Option.not_isSome_iff_eq_none, update_isSome was, Option.not_isSome_iff_eq_none]
    unfold unlink
    by_cases fails : Hits fail [.unlink] ∨ (Function.update d name (some f') other).isNone
    · rw [if_pos fails]
      simp only [(or_congr_right there).mp fails, forall_const, ← kept]
      exact ⟨fun kept => kept fun no : (-1 : Int) = 0 => absurd no (by decide), fun kept _ => kept⟩
    · rw [if_neg fails]
      exact iff_of_true (fun no => absurd rfl no) fun _ hits => absurd ((or_congr_right there).mpr hits) fails
  · rw [if_neg lasts]
    exact iff_of_true (fun no => absurd rfl no) fun same => absurd (same ▸ one) lasts

theorem unlink_keeps {other : Name} (failed : (unlink fail d other).1 ≠ 0) : Kept d (unlink fail d other).2 := by
  revert failed
  unfold unlink
  by_cases fails : Hits fail [.unlink] ∨ (d other).isNone
  · rw [if_pos fails]
    exact fun _ => Kept.refl d
  · rw [if_neg fails]
    exact fun no => absurd rfl no

theorem dec_keeps_iff (ino : Inode) (p1 : BitVec 32) :
    ((dec fail lh d ino p1).1 ≠ 0 → Kept d (dec fail lh d ino p1).2) ↔ DecSpared fail lh d ino p1 := by
  unfold DecSpared dec
  by_cases special : ino &&& inodeSpecial = inodeSpecial
  · rw [if_pos special, if_pos special]
    unfold decSpecial
    cases found : ihOpen fail d (lh.1, ino) with
    | none =>
      refine iff_of_true (fun _ => Kept.refl d) fun _ hits f there => ?_
      unfold ihOpen at found
      rw [if_neg fun no => absurd (hits.common no) (by decide), there] at found
      cases found
    | some f =>
      obtain ⟨there, opens⟩ := opened found
      simp only [there, Option.some.injEq, forall_eq']
      by_cases other : Hits fail [.getOgm] ∨ f.parm ≠ p1
      · rw [if_pos other]
        refine iff_of_true (fun _ => Kept.refl d) fun _ hits parm => absurd parm ?_
        exact other.resolve_left fun no => absurd (hits.common no) (by decide)
      rw [if_neg other]
      by_cases table : tagOf ino = viLinkTable
      · rw [if_pos table]
        refine (taken_keeps_iff there opens 0 (lh.1, ino) (· ≤ 1) (by bv_omega) (by decide) _ rfl).trans ?_
        rw [there]
        have parm : f.parm = p1 := by tauto
        refine ⟨fun spared _ hits _ one => ?_, fun spared one hits => ?_⟩
        · exact absurd (hits.common (spared one (.inl hits))) (by decide)
        · exact absurd one (spared table (hits.resolve_right fun no => nomatch no) parm)
      · rw [if_neg table]
        exact iff_of_true unlink_keeps fun no => absurd no table
  · rw [if_neg special, if_neg special]
    cases found : ihOpen fail d lh with
    | none =>
      refine iff_of_true (fun _ => Kept.refl d) fun f there _ _ => ?_
      by_contra fine
      unfold ihOpen at found
      rw [if_neg fun no => fine (no.mono (by decide)), there] at found
      cases found
    | some f =>
      obtain ⟨there, opens⟩ := opened found
      refine (taken_keeps_iff there opens ino (lh.1, ino) (· = 1) (fun _ => .inl) rfl _ rfl).trans ?_
      simp only [there, Option.some.injEq, forall_eq']

theorem linkTable_counted (parm : BitVec 32) : (setLinkCount fail { parm } 0 1 false).1 = 0 ↔
    ¬ Hits fail firstOps := by
  rw [show firstOps = [.setLock] ++ ([.setSeek, .setRead false] ++ [.setRead true]) from rfl, hits_append, hits_append]
  unfold setLinkCount
  by_cases early : true = true ∧ Hits fail [.setLock] ∨ Hits fail [.setSeek, .setRead false] <;>
    by_cases short : Hits fail [.setRead true] <;> simp_all
  split <;> rfl

theorem icreateSpecial_keeps_iff (noDir : Bool) {p2 : BitVec 32} (p1 p3 p4 : BitVec 32) (special : p2 = -1) :
    ((icreateSpecial fail d noDir p1 p3 p4).1 = none → Kept d (icreateSpecial fail d noDir p1 p3 p4).2) ↔
      CreateSpared fail lh d p1 p2 p3 p4 := by
  unfold CreateSpared icreateSpecial
  rw [if_pos special]
  dsimp only
  generalize (p4, makeSpecIno p1 p3) = name
  rcases createFile_cases fail noDir d name p1 with ⟨fails, absent, f, created⟩ | ⟨refused, why⟩ | ⟨owned, absent, created⟩
  · rw [created]
    exact iff_of_false (fun kept => not_kept_new absent (by simp) (kept rfl)) fun spared => (spared absent).1 fails
  · rw [refused]
    refine iff_of_true (fun _ => Kept.refl d) fun absent => ?_
    have early := why.resolve_left (by rw [absent]; decide)
    exact ⟨fun no => absurd (early.common no) (by decide), fun _ no => absurd (early.common no) (by decide)⟩
  rw [created]
  dsimp only
  by_cases table : p3.toNat = viLinkTable
  · rw [if_pos table]
    have counts := @linkTable_counted fail p1
    by_cases fine : (setLinkCount fail { parm := p1 } 0 1 false).1 = 0
    · simp only [fine, if_true]
      exact iff_of_true (fun no => nomatch no) fun _ => ⟨owned, fun _ => counts.mp fine⟩
    · simp only [fine, if_false]
      refine iff_of_false (fun kept => not_kept_new absent (by simp) (kept trivial)) fun spared => ?_
      exact fine (counts.mpr ((spared absent).2 table))
  · rw [if_neg table]
    exact iff_of_true (fun no => nomatch no) fun _ => ⟨owned, fun is => absurd is table⟩

theorem getFreeTag_cases (fail : Option Op) (f : File) (vno : Nat) :
    getFreeTag fail f vno = none ∧ (freeColumn (f.row vno) = none ∨ Hits fail tagOps) ∨
      ∃ col, freeColumn (f.row vno) = some col ∧ ¬ Hits fail tagOps ∧
        getFreeTag fail f vno = some (col, f.claim vno col) := by
  unfold getFreeTag
  by_cases early : Hits fail [.lock, .seek, .read]
  · rw [if_pos early]
    exact .inl ⟨rfl, .inr (early.mono (by decide))⟩
  rw [if_neg early]
  cases free : freeColumn (f.row vno) with
  | none => exact .inl ⟨rfl, .inl rfl⟩
  | some col =>
    by_cases late : Hits fail [.seekBack, .write]
    · exact .inl ⟨if_pos late, .inr (late.mono (by decide))⟩
    · exact .inr ⟨col, rfl, fun hits => ((hits_append [.lock, .seek, .read] _).mp hits).elim early late, if_neg late⟩

theorem freeColumn_free {row : Row} {col : Nat} (free : freeColumn row = some col) : col < maxVols ∧ row &&& column col = 0 := by
  have found := List.find?_some free
  exact ⟨List.mem_range.mp (List.mem_of_find?_eq_some free), of_decide_eq_true found⟩

theorem dataIno_place {p2 : BitVec 32} (p3 : BitVec 32) {tag : Nat} (small : p2.setWidth 64 &&& vnodeMask = p2.setWidth 64)
    (within : tag < maxVols) : vnode (dataIno p2 p3 tag) = p2.toNat ∧ tagOf (dataIno p2 p3 tag) = tag := by
  have mask : ∀ i < 64, vnodeMask.getLsbD i = decide (i < 26) := by decide
  have seven : ∀ i < 64, (7#64).getLsbD i = decide (i < 3) := by decide
  have vnos (i : Nat) (inside : i < 64) (behind : 26 ≤ i) : p2.getLsbD i = false := by
    have bit := congrArg (fun x : BitVec 64 => x.getLsbD i) small
    rw [BitVec.getLsbD_and, mask i inside, decide_eq_false (Nat.not_lt.mpr behind), Bool.and_false, BitVec.getLsbD_setWidth] at bit
    simpa [inside] using bit.symm
  have tags (i : Nat) (behind : 3 ≤ i) : tag.testBit i = false :=
    Nat.testBit_lt_two_pow (Nat.lt_of_lt_of_le (Nat.lt_trans within (by decide)) (Nat.pow_le_pow_right (by decide) behind))
  unfold vnode tagOf
  constructor
  · suffices same : dataIno p2 p3 tag &&& vnodeMask = p2.setWidth 64 by
      rw [same, BitVec.toNat_setWidth_of_le (by decide)]
    apply BitVec.eq_of_getLsbD_eq
    intro i inside
    simp [mask i inside, dataIno]
    grind
  suffices same : dataIno p2 p3 tag >>> 26 &&& 7 = BitVec.ofNat 64 tag by
    rw [same, BitVec.toNat_ofNat, Nat.mod_eq_of_lt (Nat.lt_trans within (by decide))]
  apply BitVec.eq_of_getLsbD_eq
  intro i inside
  simp [seven i inside, dataIno, BitVec.getLsbD_ofNat]
  grind

theorem icreateData_keeps_iff (noDir : Bool) (p1 p2 p3 p4 : BitVec 32) (data : p2 ≠ -1)
    (small : p2.setWidth 64 &&& vnodeMask = p2.setWidth 64) (known : ¬ Hits fail [.partition]) :
    ((icreateData fail lh d noDir p1 p2 p3 p4).1 = none → Kept d (icreateData fail lh d noDir p1 p2 p3 p4).2) ↔
      CreateSpared fail lh d p1 p2 p3 p4 := by
  unfold icreateData CreateSpared
  simp only [if_neg data, small, known, not_false_eq_true, forall_const]
  have refused (why : ∀ f, d lh = some f → freeColumn (f.row p2.toNat) = none ∨
      Hits fail (.open :: tagOps)) : Kept d (cleanup lh d 0) ↔
      ∀ f, d lh = some f → match freeColumn (f.row p2.toNat) with
        | none => f.links 0 = 0
        | some col => (Hits fail (.open :: tagOps) → f.links 0 = 0) ∧
            (Hits fail [.chown, .chmod] → (d (p1, dataIno p2 p3 col)).isSome) := by
    rw [cleanup_kept]
    refine forall_congr' fun f => imp_congr_right fun table => ?_
    cases free : freeColumn (f.row p2.toNat) with
    | none => rfl
    | some col =>
      have hits := (why f table).resolve_left (by rw [free]; exact fun no => nomatch no)
      refine ⟨fun zero => ⟨fun _ => zero, fun owner => ?_⟩, fun spared => spared.1 hits⟩
      exact absurd (owner.common hits) (by decide)
  cases found : ihOpen fail d lh with
  | none =>
    refine (imp_iff_right rfl).trans (refused fun f table => .inr ?_)
    by_contra fine
    unfold ihOpen at found
    rw [if_neg fun no => fine (no.mono (by decide)), table] at found
    cases found
  | some f =>
    obtain ⟨table, opens⟩ := opened found
    rcases getFreeTag_cases fail f p2.toNat with ⟨claimed, why⟩ | ⟨tag, free, fine, claimed⟩
    · rw [Option.bind_some, claimed]
      refine (imp_iff_right rfl).trans (refused fun g same => ?_)
      cases table.symm.trans same
      exact why.imp_right fun hits => hits.mono (by decide)
    rw [Option.bind_some, claimed]
    obtain ⟨within, clear⟩ := freeColumn_free free
    obtain ⟨row, col⟩ := dataIno_place p3 small within
    simp only [table, Option.some.injEq, forall_eq', free]
    have claims : ¬ Hits fail (.open :: tagOps) := fun hits =>
      ((hits_append [.open] _).mp hits).elim opens fine
    rw [and_iff_right fun hits => absurd hits claims]
    have same := update_isSome table (f.claim p2.toNat tag) (p1, dataIno p2 p3 tag)
    rcases createFile_cases fail noDir (Function.update d lh (some (f.claim p2.toNat tag))) (p1, dataIno p2 p3 tag) p4 with
      ⟨fails, absent, g, created⟩ | ⟨refused, why⟩ | ⟨owned, absent, created⟩
    · rw [created]
      rw [absent] at same
      have was := Option.not_isSome_iff_eq_none.mp (by rw [← same]; decide)
      refine iff_of_false (fun kept => not_kept_new was ?_ (kept rfl)) fun owner => ?_
      · rw [cleanup_isSome, Function.update_self]
        rfl
      · exact absurd (same.trans (owner fails)) (by decide)
    · rw [refused]
      refine iff_of_true (fun _ => ?_) fun fails => same.symm.trans (why.resolve_right fun early => ?_)
      · dsimp only
        unfold cleanup
        rw [Function.update_self]
        dsimp only
        rw [Function.update_idem, setLinkCount_none]
        exact Kept.update table (File.claim_undone clear row col)
      · exact absurd (fails.common early) (by decide)
    · rw [created]
      exact iff_of_true (fun no => nomatch no) fun fails => absurd fails owned

theorem icreate_keeps_iff (noDir : Bool) (p1 p2 p3 p4 : BitVec 32) :
    ((icreate fail lh d noDir p1 p2 p3 p4).1 = none → Kept d (icreate fail lh d noDir p1 p2 p3 p4).2) ↔
      CreateSpared fail lh d p1 p2 p3 p4 := by
  unfold icreate
  by_cases unknown : Hits fail [.partition]
  · rw [if_pos unknown]
    refine iff_of_true (fun _ => Kept.refl d) ?_
    unfold CreateSpared
    split
    · exact fun _ => ⟨fun no => absurd (unknown.common no) (by decide), fun _ no => absurd (unknown.common no) (by decide)⟩
    · exact fun _ known => absurd unknown known
  rw [if_neg unknown]
  by_cases special : p2 = -1
  · rw [if_pos special]
    exact icreateSpecial_keeps_iff noDir p1 p3 p4 special
  rw [if_neg special]
  by_cases big : p2.setWidth 64 &&& vnodeMask ≠ p2.setWidth 64
  · rw [if_pos big]
    refine iff_of_true (fun _ => Kept.refl d) ?_
    unfold CreateSpared
    rw [if_neg special]
    exact fun small => absurd small big
  · rw [if_neg big]
    exact icreateData_keeps_iff noDir p1 p2 p3 p4 special (not_not.mp big) unknown

end

/-- A call that fails leaves the links and the files as they were exactly if it is spared what the code does not undo. -/
theorem failed_call_keeps_iff (c : Call) (fail : Option Op) (lh : Name) (d : Disk) :
    c.FailedKeeps fail lh d ↔ c.Spared fail lh d := by
  cases c with
  | inc ino => exact iff_of_true (inc_keeps ino) trivial
  | dec ino p1 => exact dec_keeps_iff ino p1
  | icreate noDir p1 p2 p3 p4 => exact icreate_keeps_iff noDir p1 p2 p3 p4

/-- A vnode has no free column, and the count of the table itself, which is 1, is wiped. -/
theorem refused_tag_wipes : ¬ ∀ (c : Call) (fail : Option Op) (lh : Name) (d : Disk), c.FailedKeeps fail lh d := by
  intro keeps
  let table : File := ⟨0, [1, 0b001001001001001]⟩
  have kept := keeps (.icreate false 7 1 2 0) none (7, makeSpecIno 7 6) (fun _ => some table) (by decide +kernel)
  have count := kept.counts (7, makeSpecIno 7 6) table ⟨0, [0, 0b001001001001001]⟩ rfl (by decide +kernel) 0 0
  exact absurd count (by decide)

end OpenAFS.Vol.Namei
