import OpenAFS.Afs.DirBuffers

namespace OpenAFS.Afs

open Function (update update_self update_of_ne)
open Lib

structure Cell (D : Type) where
  file : D
  released : Option D
  releases : Nat
  saved : Nat

namespace Buffer

variable {Proc D : Type}

def Loading (tb : Buffer Proc D) : Prop := ∃ t, tb.lock = some (t, .loading)

def Written (tb : Buffer Proc D) : Prop := ∃ t, tb.lock = some (t, .written)

structure Counts (tb : Buffer Proc D) : Prop where
  lockers : tb.lockers.toNat = tb.callers + if tb.lock.isSome then 1 else 0
  modifiers : tb.modifiers ≤ tb.callers
  loading : tb.Loading → tb.callers = 0 ∧ tb.dirty = false
  orphan : tb.fid = none → tb.dirty = false

structure Agrees (tb : Buffer Proc D) (c : Cell D) : Prop where
  last : ¬ tb.Loading → tb.modifiers = 0 → tb.data = c.released.getD c.file
  clean : ¬ tb.Loading → tb.modifiers = 0 → tb.dirty = false ∨ tb.Written → tb.data = c.file
  unsaved : tb.dirty = true → ¬ tb.Written → c.saved < c.releases
  written : tb.Written → c.saved = c.releases

variable {tb : Buffer Proc D}

theorem loading_free (free : tb.lock = none) : ¬ tb.Loading := by
  rintro ⟨t, holds⟩
  rw [free] at holds
  cases holds

theorem written_free (free : tb.lock = none) : ¬ tb.Written := by
  rintro ⟨t, holds⟩
  rw [free] at holds
  cases holds

theorem toNat_increment {x : BitVec 8} (fits : x ≠ 255) : (x + 1).toNat = x.toNat + 1 := by
  have small : x.toNat ≠ 255 := fun same => fits (BitVec.eq_of_toNat_eq same)
  show (x.toNat + 1) % 2 ^ 8 = _
  omega

theorem toNat_decrement {x : BitVec 8} (positive : 0 < x.toNat) : (x - 1).toNat = x.toNat - 1 := by
  show (2 ^ 8 - 1 + x.toNat) % 2 ^ 8 = _
  omega

theorem Counts.unused (counts : tb.Counts) (none : tb.lockers = 0) : tb.callers = 0 ∧ tb.modifiers = 0 ∧ tb.lock = .none := by
  have total := counts.lockers
  rw [none] at total
  have callers : tb.callers = 0 := by
    have zero : (0 : BitVec 8).toNat = 0 := rfl
    omega
  refine ⟨callers, Nat.le_zero.mp (callers ▸ counts.modifiers), ?_⟩
  cases held : tb.lock with
  | none => rfl
  | some holder =>
    rw [held, callers] at total
    cases total

theorem Counts.owned (counts : tb.Counts) (dirty : tb.dirty = true) : ∃ index, tb.fid = some index := by
  refine Option.ne_none_iff_exists'.mp fun orphan => ?_
  rw [counts.orphan orphan] at dirty
  cases dirty

end Buffer

namespace DirBuffers

variable {Proc D : Type} {n : Nat} {F : CacheFiles} {s s' : DirBuffers Proc D n}

def cell (F : CacheFiles) (s : DirBuffers Proc D n) (index page : Nat) : Cell D where
  file := s.files (F.inode index) page
  released := s.released index page
  releases := s.releases index page
  saved := s.saved index page

structure PageKept (F : CacheFiles) (s : DirBuffers Proc D n) (index page : Nat) : Prop where
  le : s.saved index page ≤ s.releases index page
  dirty : s.saved index page < s.releases index page → ∃ b, s.Bufmatch index page b ∧ (s.buffers b).dirty = true
  file : (∀ b, s.Bufmatch index page b → (s.buffers b).Loading) →
    ∀ x, s.released index page = some x → s.files (F.inode index) page = x

structure Contents (F : CacheFiles) (s : DirBuffers Proc D n) : Prop where
  unique : ∀ index page b b', s.Bufmatch index page b → s.Bufmatch index page b' → b = b'
  counts : ∀ b, (s.buffers b).Counts
  inode : ∀ b index, (s.buffers b).fid = some index → (s.buffers b).inode = F.inode index
  agrees : ∀ b index, (s.buffers b).fid = some index → (s.buffers b).Agrees (s.cell F index (s.buffers b).page)
  pages : ∀ index page, s.PageKept F index page

theorem Contents.set (c : s.Contents F) (b : Fin n) (others : ∀ m ≠ b, s'.buffers m = s.buffers m)
    (cells : ∀ index page, ¬ s.Bufmatch index page b → s'.cell F index page = s.cell F index page)
    (alone : ∀ index page m, s'.Bufmatch index page b → m ≠ b → ¬ s.Bufmatch index page m)
    (counts : (s'.buffers b).Counts)
    (agrees : ∀ index, (s'.buffers b).fid = some index → (s'.buffers b).inode = F.inode index ∧
      (s'.buffers b).Agrees (s'.cell F index (s'.buffers b).page))
    (pages : ∀ index page, s.Bufmatch index page b ∨ s'.Bufmatch index page b → s'.PageKept F index page) :
    s'.Contents F := by
  have same {index page : Nat} {m : Fin n} (other : m ≠ b) : s'.Bufmatch index page m ↔ s.Bufmatch index page m := by
    unfold Bufmatch
    rw [others m other]
  constructor
  · intro index page m m' here there
    by_cases isB : m = b
    · by_cases isB' : m' = b
      · rw [isB, isB']
      · exact absurd ((same isB').mp there) (alone index page m' (isB ▸ here) isB')
    · by_cases isB' : m' = b
      · exact absurd ((same isB).mp here) (alone index page m (isB' ▸ there) isB)
      · exact c.unique index page m m' ((same isB).mp here) ((same isB').mp there)
  · intro m
    by_cases isB : m = b
    · exact isB ▸ counts
    · rw [others m isB]
      exact c.counts m
  · intro m index fid
    by_cases isB : m = b
    · subst isB
      exact (agrees index fid).1
    · rw [others m isB] at fid ⊢
      exact c.inode m index fid
  · intro m index fid
    by_cases isB : m = b
    · subst isB
      exact (agrees index fid).2
    · rw [others m isB] at fid ⊢
      rw [cells index _ fun matched => isB (c.unique index _ m b ⟨rfl, fid⟩ matched)]
      exact c.agrees m index fid
  · intro index page
    by_cases touched : s.Bufmatch index page b ∨ s'.Bufmatch index page b
    · exact pages index page touched
    have before := c.pages index page
    obtain ⟨notBefore, notAfter⟩ := not_or.mp touched
    have cell := cells index page notBefore
    have file : s'.files (F.inode index) page = s.files (F.inode index) page := congrArg Cell.file cell
    have released : s'.released index page = s.released index page := congrArg Cell.released cell
    have releases : s'.releases index page = s.releases index page := congrArg Cell.releases cell
    have saved : s'.saved index page = s.saved index page := congrArg Cell.saved cell
    constructor
    · rw [saved, releases]
      exact before.le
    · rw [saved, releases]
      intro behind
      obtain ⟨m, matched, dirty⟩ := before.dirty behind
      have other : m ≠ b := fun isB => notBefore (isB ▸ matched)
      exact ⟨m, (same other).mpr matched, by rw [others m other]; exact dirty⟩
    · rw [file, released]
      refine fun loading => before.file fun m matched => ?_
      have other : m ≠ b := fun isB => notBefore (isB ▸ matched)
      rw [← others m other]
      exact loading m ((same other).mpr matched)

theorem Contents.setKept (c : s.Contents F) (b : Fin n) (others : ∀ m ≠ b, s'.buffers m = s.buffers m)
    (cells : s'.cell F = s.cell F) (fid : (s'.buffers b).fid = (s.buffers b).fid)
    (page : (s'.buffers b).page = (s.buffers b).page) (inode : (s'.buffers b).inode = (s.buffers b).inode)
    (counts : (s'.buffers b).Counts) (loading : (s'.buffers b).Loading → (s.buffers b).Loading)
    (agrees : ∀ index, (s.buffers b).fid = some index → (s.buffers b).Agrees (s.cell F index (s.buffers b).page) →
      ((s.buffers b).Loading → ∀ x, s.released index (s.buffers b).page = some x →
        s.files (F.inode index) (s.buffers b).page = x) →
      (s'.buffers b).Agrees (s.cell F index (s.buffers b).page) ∧
        (s.saved index (s.buffers b).page < s.releases index (s.buffers b).page → (s.buffers b).dirty = true →
          (s'.buffers b).dirty = true)) :
    s'.Contents F := by
  have same {index page' : Nat} : s'.Bufmatch index page' b ↔ s.Bufmatch index page' b := by
    unfold Bufmatch
    rw [fid, page]
  have known (index : Nat) (has : (s.buffers b).fid = some index) :
      (s.buffers b).Loading → ∀ x, s.released index (s.buffers b).page = some x →
        s.files (F.inode index) (s.buffers b).page = x := by
    intro loading
    exact (c.pages index _).file fun m matched => c.unique index _ m b matched ⟨rfl, has⟩ ▸ loading
  refine c.set b others (fun index page' _ => by rw [cells]) (fun index page' m here other there => ?_) counts ?_ ?_
  · exact other (c.unique index page' m b there (same.mp here))
  · intro index has
    rw [fid] at has
    rw [inode, page, cells]
    exact ⟨c.inode b index has, (agrees index has (c.agrees b index has) (known index has)).1⟩
  intro index page' touched
  have matched : s.Bufmatch index page' b := touched.elim id same.mp
  obtain ⟨rfl, has⟩ := matched
  have before := c.pages index (s.buffers b).page
  have cell := congrFun (congrFun cells index) (s.buffers b).page
  have file : s'.files (F.inode index) (s.buffers b).page = _ := congrArg Cell.file cell
  have released : s'.released index (s.buffers b).page = _ := congrArg Cell.released cell
  have releases : s'.releases index (s.buffers b).page = _ := congrArg Cell.releases cell
  have saved : s'.saved index (s.buffers b).page = _ := congrArg Cell.saved cell
  constructor
  · rw [saved, releases]
    exact before.le
  · rw [saved, releases]
    intro late
    obtain ⟨m, matched, dirty⟩ := before.dirty late
    have isB : m = b := c.unique index _ m b matched ⟨rfl, has⟩
    rw [isB] at dirty
    exact ⟨b, same.mpr ⟨rfl, has⟩, (agrees index has (c.agrees b index has) (known index has)).2 late dirty⟩
  · rw [file, released]
    exact fun all => known index has (loading (all b (same.mpr ⟨rfl, has⟩)))

@[simp] theorem setBuffer_same (b : Fin n) (tb : Buffer Proc D) : (s.setBuffer b tb).buffers b = tb :=
  update_self _ _ _

theorem setBuffer_other {b m : Fin n} (other : m ≠ b) (tb : Buffer Proc D) : (s.setBuffer b tb).buffers m = s.buffers m :=
  update_of_ne other _ _

section Kept

variable {b : Fin n} (c : s.Contents F)
include c

variable {tb : Buffer Proc D}

variable (is : s.buffers b = tb)
include is

theorem Contents.hit (free : tb.lock = none) (fits : tb.lockers ≠ 255) (i : Nat) :
    ((s.bufFront i b).setBuffer b { tb with
      lockers := tb.lockers + 1, accesstime := s.timecounter, callers := tb.callers + 1 }).Contents F := by
  subst is
  have counts := c.counts b
  refine c.setKept b (fun m other => setBuffer_other other _) rfl ?_ ?_ ?_ ?_ ?_ ?_ <;> rw [setBuffer_same]
  · constructor
    · rw [Buffer.toNat_increment fits, counts.lockers, free]
      rfl
    · exact counts.modifiers.trans (Nat.le_succ _)
    · exact fun loading => absurd loading (Buffer.loading_free free)
    · exact counts.orphan
  · exact id
  · exact fun index _ agrees _ => ⟨⟨agrees.last, agrees.clean, agrees.unsaved, agrees.written⟩, fun _ => id⟩

theorem Contents.readIn {t : Proc} {index : Nat}
    (loading : tb.lock = some (t, .loading)) (has : tb.fid = some index) :
    (s.setBuffer b { tb with
      data := s.files (F.inode index) tb.page, lock := none, callers := tb.callers + 1 }).Contents F := by
  subst is
  have counts := c.counts b
  have isLoading : (s.buffers b).Loading := ⟨t, loading⟩
  obtain ⟨alone, clean⟩ := counts.loading isLoading
  refine c.setKept b (fun m other => setBuffer_other other _) rfl ?_ ?_ ?_ ?_ ?_ ?_ <;> rw [setBuffer_same]
  · constructor
    · rw [counts.lockers, loading]
      rfl
    · exact counts.modifiers.trans (Nat.le_succ _)
    · exact fun loading => absurd loading (Buffer.loading_free rfl)
    · exact counts.orphan
  · exact fun _ => isLoading
  intro index' has' agrees known
  rw [has] at has'
  cases has'
  refine ⟨⟨fun _ _ => ?_, fun _ _ _ => rfl, fun dirty => ?_, fun written => absurd written (Buffer.written_free rfl)⟩,
    fun _ dirty => dirty⟩
  · show s.files (F.inode index) _ = (s.released index _).getD (s.files (F.inode index) _)
    cases last : s.released index (s.buffers b).page with
    | none => rfl
    | some x => exact known isLoading x last
  · exact absurd dirty (by rw [clean]; decide)

theorem Contents.modify (data : D) {first : Bool}
    (may : if first then tb.modifiers < tb.callers else 0 < tb.modifiers) :
    (s.setBuffer b { tb with data, modifiers := tb.modifiers + first.toNat }).Contents F := by
  subst is
  have counts := c.counts b
  have changing : 0 < (s.buffers b).modifiers + first.toNat ∧ (s.buffers b).modifiers + first.toNat ≤ (s.buffers b).callers := by
    have bound := counts.modifiers
    cases first with
    | true => exact ⟨Nat.succ_pos _, may⟩
    | false => exact ⟨may, bound⟩
  refine c.setKept b (fun m other => setBuffer_other other _) rfl ?_ ?_ ?_ ?_ ?_ ?_ <;> rw [setBuffer_same]
  · exact ⟨counts.lockers, changing.2, counts.loading, counts.orphan⟩
  · exact id
  · exact fun index _ agrees _ => ⟨⟨fun _ none => absurd none changing.1.ne', fun _ none => absurd none changing.1.ne',
      agrees.unsaved, agrees.written⟩, fun _ => id⟩

theorem Contents.release (free : tb.lock = none) (unmodified : tb.modifiers < tb.callers) :
    (s.setBuffer b { tb with lockers := tb.lockers - 1, callers := tb.callers - 1 }).Contents F := by
  subst is
  have counts := c.counts b
  have total := counts.lockers
  refine c.setKept b (fun m other => setBuffer_other other _) rfl ?_ ?_ ?_ ?_ ?_ ?_ <;> rw [setBuffer_same]
  · constructor
    · rw [Buffer.toNat_decrement (by omega), total, free]
      rfl
    · exact Nat.le_sub_one_of_lt unmodified
    · exact fun loading => absurd loading (Buffer.loading_free free)
    · exact counts.orphan
  · exact id
  · exact fun index _ agrees _ => ⟨⟨agrees.last, agrees.clean, agrees.unsaved, agrees.written⟩, fun _ => id⟩

theorem Contents.lock (free : tb.lock = none) (fits : tb.lockers ≠ 255)
    (t : Proc) : (s.setBuffer b { tb with lockers := tb.lockers + 1, lock := some (t, .flushing) }).Contents F := by
  subst is
  have counts := c.counts b
  have idle := Buffer.written_free free
  have flushing {use : Use} {t' : Proc} (holds : some (t, Use.flushing) = some (t', use)) : use = .flushing := by
    cases holds
    rfl
  refine c.setKept b (fun m other => setBuffer_other other _) rfl ?_ ?_ ?_ ?_ ?_ ?_ <;> rw [setBuffer_same]
  · constructor
    · rw [Buffer.toNat_increment fits, counts.lockers, free]
      rfl
    · exact counts.modifiers
    · rintro ⟨t', holds⟩
      cases flushing holds
    · exact counts.orphan
  · rintro ⟨t', holds⟩
    cases flushing holds
  intro index _ agrees _
  refine ⟨⟨fun _ => agrees.last (Buffer.loading_free free), fun _ none either => ?_,
    fun dirty _ => agrees.unsaved dirty idle, ?_⟩,
    fun _ => id⟩
  · rcases either with clean | ⟨t', holds⟩
    · exact agrees.clean (Buffer.loading_free free) none (.inl clean)
    · cases flushing holds
  · rintro ⟨t', holds⟩
    cases flushing holds

theorem Contents.unlock {t : Proc} {use : Use} (holds : tb.lock = some (t, use))
    (done : tb.dirty = false ∨ use = .written) (unloading : use ≠ .loading) :
    (s.setBuffer b { tb with lockers := tb.lockers - 1, dirty := false, lock := none }).Contents F := by
  subst is
  have counts := c.counts b
  have total := counts.lockers
  rw [holds] at total
  have total : (s.buffers b).lockers.toNat = (s.buffers b).callers + 1 := total
  have loaded : ¬ (s.buffers b).Loading := by
    rintro ⟨t', loading⟩
    rw [holds] at loading
    cases loading
    exact unloading rfl
  have either : (s.buffers b).dirty = false ∨ (s.buffers b).Written :=
    done.imp_right fun isWritten => ⟨t, by rw [holds, isWritten]⟩
  refine c.setKept b (fun m other => setBuffer_other other _) rfl ?_ ?_ ?_ ?_ ?_ ?_ <;> rw [setBuffer_same]
  · constructor
    · rw [Buffer.toNat_decrement (by omega), total]
      rfl
    · exact counts.modifiers
    · exact fun loading => absurd loading (Buffer.loading_free rfl)
    · exact fun _ => rfl
  · exact fun loading => absurd loading (Buffer.loading_free rfl)
  intro index _ agrees _
  refine ⟨⟨fun _ => agrees.last loaded, fun _ none _ => agrees.clean loaded none either, fun dirty => (by cases dirty),
    fun written => absurd written (Buffer.written_free rfl)⟩, fun late dirty => ?_⟩
  rcases either with clean | written
  · rw [clean] at dirty
    cases dirty
  · exact absurd (agrees.written written) late.ne

end Kept

theorem Contents.setPage (c : s.Contents F) {b : Fin n} (others : ∀ m ≠ b, s'.buffers m = s.buffers m)
    (cells : ∀ index page, ¬ s.Bufmatch index page b → s'.cell F index page = s.cell F index page)
    (fid : ∀ index, (s'.buffers b).fid = some index → (s.buffers b).fid = some index ∧ (s'.buffers b).inode = (s.buffers b).inode)
    (page : (s'.buffers b).page = (s.buffers b).page) (counts : (s'.buffers b).Counts)
    (agrees : ∀ index, (s'.buffers b).fid = some index → (s.buffers b).Agrees (s.cell F index (s.buffers b).page) →
      (s'.buffers b).Agrees (s'.cell F index (s.buffers b).page))
    (kept : ∀ index, (s.buffers b).fid = some index → s.PageKept F index (s.buffers b).page →
      s'.PageKept F index (s.buffers b).page) :
    s'.Contents F := by
  have before {index page' : Nat} (matched : s'.Bufmatch index page' b) : s.Bufmatch index page' b :=
    ⟨page.symm.trans matched.1, (fid index matched.2).1⟩
  refine c.set b others cells (fun index page' m here other there => ?_) counts (fun index has => ?_) ?_
  · exact other (c.unique index page' m b there (before here))
  · obtain ⟨had, inode⟩ := fid index has
    rw [inode, page]
    exact ⟨c.inode b index had, agrees index has (c.agrees b index had)⟩
  · intro index page' touched
    obtain ⟨rfl, has⟩ := touched.elim id before
    exact kept index has (c.pages index _)

variable {index : Nat}

theorem update_page {E : Type} (table : Nat → Nat → E) {page index' page' : Nat} (x : E)
    (other : ¬ (page = page' ∧ index = index')) :
    update table index (update (table index) page x) index' page' = table index' page' := by
  by_cases same : index' = index
  · rw [same, update_self]
    exact update_of_ne (fun same' => other ⟨same'.symm, same.symm⟩) _ _
  · rw [update_of_ne same]

@[simp] theorem update_page_same {E : Type} (table : Nat → Nat → E) (index page : Nat) (x : E) :
    update table index (update (table index) page x) index page = x := by
  rw [update_self, update_self]

theorem cell_cFileWrite {b : Fin n} (has : (s.buffers b).fid = some index) (inode : (s.buffers b).inode = F.inode index) :
    (s.cFileWrite b).cell F index (s.buffers b).page = { s.cell F index (s.buffers b).page with
        file := (s.buffers b).data, saved := s.releases index (s.buffers b).page } := by
  simp only [cell, cFileWrite, has, inode, update_page_same]

theorem cell_cFileWrite_other {b : Fin n} {index' page' : Nat} (has : (s.buffers b).fid = some index)
    (inode : (s.buffers b).inode = F.inode index) (other : ¬ s.Bufmatch index' page' b) :
    (s.cFileWrite b).cell F index' page' = s.cell F index' page' := by
  have apart : ¬ ((s.buffers b).page = page' ∧ index = index') := fun same => other ⟨same.1, has.trans (congrArg some same.2)⟩
  have files : (s.cFileWrite b).files (F.inode index') page' = s.files (F.inode index') page' := by
    refine (congrArg (fun i => update s.files i _ _ _) inode).trans ?_
    rw [inode]
    exact update_page s.files _ fun same => apart ⟨same.1, F.injective same.2⟩
  have saved : (s.cFileWrite b).saved index' page' = s.saved index' page' := by
    simp only [cFileWrite, has]
    exact update_page s.saved _ apart
  unfold cell
  rw [files, saved]
  rfl

section Changed

variable {b : Fin n} (c : s.Contents F)
include c

theorem Contents.write {tb : Buffer Proc D} (is : s.buffers b = tb) {t : Proc} (holds : tb.lock = some (t, .flushing))
    (dirty : tb.dirty = true) : ((s.cFileWrite b).setBuffer b { tb with lock := some (t, .written) }).Contents F := by
  subst is
  have counts := c.counts b
  obtain ⟨index, has⟩ := counts.owned dirty
  have inode := c.inode b index has
  have loaded : ¬ (s.buffers b).Loading := by
    rintro ⟨t', loading⟩
    rw [holds] at loading
    cases loading
  have written : ∃ t', some (t, Use.written) = some (t', Use.written) := ⟨t, rfl⟩
  have unloading : ¬ ∃ t', some (t, Use.written) = some (t', Use.loading) := by
    rintro ⟨t', same⟩
    cases same
  have cellEq := cell_cFileWrite has inode
  refine c.setPage (fun m other => setBuffer_other other _) (fun index' page' => cell_cFileWrite_other has inode) ?_ ?_ ?_ ?_ ?_
  · rw [setBuffer_same]
    exact fun index' has' => ⟨has', rfl⟩
  · rw [setBuffer_same]
  · rw [setBuffer_same]
    constructor
    · rw [counts.lockers, holds]
      rfl
    · exact counts.modifiers
    · exact fun loading => absurd loading unloading
    · exact counts.orphan
  · rw [setBuffer_same]
    intro index' has' agrees
    rw [has] at has'
    cases has'
    show Buffer.Agrees _ ((s.cFileWrite b).cell F index _)
    rw [cellEq]
    refine ⟨fun _ none => ?_, fun _ _ _ => rfl, fun _ unwritten => absurd written unwritten, fun _ => rfl⟩
    have last := agrees.last loaded none
    show (s.buffers b).data = (s.released index _).getD (s.buffers b).data
    change (s.buffers b).data = (s.released index _).getD _ at last
    cases released : s.released index (s.buffers b).page with
    | none => rfl
    | some x =>
      rw [released] at last
      exact last
  · intro index' has' before
    rw [has] at has'
    cases has'
    have saved : (s.cFileWrite b).saved index (s.buffers b).page = s.releases index (s.buffers b).page :=
      congrArg Cell.saved cellEq
    refine ⟨saved.le, fun late => absurd saved late.ne, fun all => absurd (all b ?_) ?_⟩
    · exact ⟨by rw [setBuffer_same], by rw [setBuffer_same]; exact has⟩
    · rw [setBuffer_same]
      exact unloading

variable {tb : Buffer Proc D}

theorem Contents.releaseModified (is : s.buffers b = tb) (free : tb.lock = none)
    (modified : tb.modifiers ≠ 0) {index : Nat} (has : tb.fid = some index) :
    ({ s with
        released := update s.released index (update (s.released index) tb.page (some tb.data))
        releases := update s.releases index (update (s.releases index) tb.page (s.releases index tb.page + 1)) }.setBuffer b
      { tb with
        lockers := tb.lockers - 1, dirty := true, callers := tb.callers - 1, modifiers := tb.modifiers - 1 }).Contents F := by
  subst is
  have counts := c.counts b
  have some := counts.modifiers
  have total := counts.lockers
  refine c.setPage (fun m other => setBuffer_other other _) (fun index' page' other => ?_) ?_ ?_ ?_ ?_ ?_
  · have apart : ¬ ((s.buffers b).page = page' ∧ index = index') :=
      fun same => other ⟨same.1, has.trans (congrArg Option.some same.2)⟩
    exact congrArg₂ (fun x y => Cell.mk _ x y _) (update_page s.released _ apart) (update_page s.releases _ apart)
  · rw [setBuffer_same]
    exact fun index' has' => ⟨has', rfl⟩
  · rw [setBuffer_same]
  · rw [setBuffer_same]
    constructor
    · rw [Buffer.toNat_decrement (by omega), total, free]
      rfl
    · exact Nat.sub_le_sub_right some 1
    · exact fun loading => absurd loading (Buffer.loading_free free)
    · exact fun orphan => absurd (has.symm.trans orphan) (Option.some_ne_none index)
  · rw [setBuffer_same]
    intro index' has' agrees
    cases has.symm.trans has'
    have le := (c.pages index (s.buffers b).page).le
    refine ⟨fun _ _ => ?_, fun _ _ either => ?_, fun _ _ => ?_, fun written => absurd written (Buffer.written_free free)⟩
    · show (s.buffers b).data = (update s.released index _ index _).getD _
      rw [update_page_same]
      rfl
    · exact absurd either (not_or.mpr ⟨fun clean : true = false => (nomatch clean), Buffer.written_free free⟩)
    · show s.saved index _ < update s.releases index _ index _
      rw [update_page_same]
      exact Nat.lt_succ_of_le le
  · intro index' has' before
    cases has.symm.trans has'
    have matched {tb' : Buffer Proc D} {u : DirBuffers Proc D n} (fid : tb'.fid = Option.some index)
        (page : tb'.page = (s.buffers b).page) : (u.setBuffer b tb').Bufmatch index (s.buffers b).page b := by
      unfold Bufmatch
      rw [setBuffer_same]
      exact ⟨page, fid⟩
    constructor
    · show s.saved index _ ≤ update s.releases index _ index _
      rw [update_page_same]
      exact before.le.trans (Nat.le_succ _)
    · exact fun _ => ⟨b, matched has rfl, by rw [setBuffer_same]⟩
    intro all
    have loading := all b (matched has rfl)
    rw [setBuffer_same] at loading
    exact absurd loading (Buffer.loading_free free)

theorem Contents.zap (is : s.buffers b = tb) (free : tb.lock = none) {index : Nat} (has : tb.fid = some index) : ({ s with
        released := update s.released index (update (s.released index) tb.page none)
        saved := update s.saved index (update (s.saved index) tb.page (s.releases index tb.page)) }.setBuffer b
      { tb with fid := none, inode := 0, dirty := false }).Contents F := by
  subst is
  have counts := c.counts b
  refine c.setPage (fun m other => setBuffer_other other _) (fun index' page' other => ?_) ?_ ?_ ?_ ?_ ?_
  · have apart : ¬ ((s.buffers b).page = page' ∧ index = index') :=
      fun same => other ⟨same.1, has.trans (congrArg Option.some same.2)⟩
    exact congrArg₂ (fun x y => Cell.mk _ x _ y) (update_page s.released _ apart) (update_page s.saved _ apart)
  · rw [setBuffer_same]
    exact fun index' absent => nomatch absent
  · rw [setBuffer_same]
  · rw [setBuffer_same]
    exact ⟨counts.lockers, counts.modifiers, fun loading => absurd loading (Buffer.loading_free free), fun _ => rfl⟩
  · rw [setBuffer_same]
    exact fun index' absent => nomatch absent
  · intro index' has' before
    cases has.symm.trans has'
    have saved : update s.saved index (update (s.saved index) (s.buffers b).page (s.releases index (s.buffers b).page)) index
        (s.buffers b).page = s.releases index (s.buffers b).page := update_page_same _ _ _ _
    refine ⟨saved.le, fun late => absurd saved late.ne, fun _ x released => ?_⟩
    have none : update s.released index (update (s.released index) (s.buffers b).page none) index (s.buffers b).page = none :=
      update_page_same _ _ _ _
    exact nomatch none.symm.trans released

theorem Contents.zapOrphan (is : s.buffers b = tb) (orphan : tb.fid = none) :
    (s.setBuffer b { tb with fid := none, inode := 0, dirty := false }).Contents F := by
  subst is
  have counts := c.counts b
  refine c.setPage (fun m other => setBuffer_other other _) (fun _ _ _ => rfl) ?_ ?_ ?_ ?_ ?_
  · rw [setBuffer_same]
    exact fun index' absent => nomatch absent
  · rw [setBuffer_same]
  · rw [setBuffer_same]
    exact ⟨counts.lockers, counts.modifiers, fun loading => ⟨(counts.loading loading).1, rfl⟩, fun _ => rfl⟩
  · rw [setBuffer_same]
    exact fun index' absent => nomatch absent
  · exact fun index has => nomatch orphan.symm.trans has

theorem Contents.evict (unused : (s.buffers b).lockers = 0) : (s.evict b).Contents F := by
  have counts := c.counts b
  obtain ⟨-, idle, free⟩ := counts.unused unused
  unfold DirBuffers.evict
  split
  swap
  · exact c
  rename_i dirty
  obtain ⟨index, has⟩ := counts.owned dirty
  have inode := c.inode b index has
  have cellEq := cell_cFileWrite has inode
  refine c.setPage (fun m other => setBuffer_other other _) (fun index' page' => cell_cFileWrite_other has inode) ?_ ?_ ?_ ?_ ?_
  · rw [setBuffer_same]
    exact fun index' has' => ⟨has', rfl⟩
  · rw [setBuffer_same]
  · rw [setBuffer_same]
    exact ⟨counts.lockers, counts.modifiers, fun loading => absurd loading (Buffer.loading_free free), fun _ => rfl⟩
  · rw [setBuffer_same]
    intro index' has' agrees
    cases has.symm.trans has'
    show Buffer.Agrees _ ((s.cFileWrite b).cell F index _)
    rw [cellEq]
    refine ⟨fun _ _ => ?_, fun _ _ _ => rfl, fun dirty => (nomatch dirty),
      fun written => absurd written (Buffer.written_free free)⟩
    have last := agrees.last (Buffer.loading_free free) idle
    show (s.buffers b).data = (s.released index _).getD (s.buffers b).data
    change (s.buffers b).data = (s.released index _).getD _ at last
    cases released : s.released index (s.buffers b).page with
    | none => rfl
    | some x =>
      rw [released] at last
      exact last
  · intro index' has' before
    cases has.symm.trans has'
    have saved : (s.cFileWrite b).saved index (s.buffers b).page = s.releases index (s.buffers b).page :=
      congrArg Cell.saved cellEq
    refine ⟨saved.le, fun late => absurd saved late.ne, fun all => absurd (all b ?_) ?_⟩
    · exact ⟨by rw [setBuffer_same], by rw [setBuffer_same]; exact has⟩
    · rw [setBuffer_same]
      exact Buffer.loading_free free

theorem Contents.reassign (clean : (s.buffers b).dirty = false) (unused : (s.buffers b).lockers = 0)
    (others : ∀ m ≠ b, s'.buffers m = s.buffers m) (cells : s'.cell F = s.cell F) (counts : (s'.buffers b).Counts)
    (still : (s'.buffers b).dirty = false) (unwritten : ¬ (s'.buffers b).Written)
    (gets : ∀ index, (s'.buffers b).fid = some index → (s'.buffers b).inode = F.inode index ∧
      (∀ m, ¬ s.Bufmatch index (s'.buffers b).page m) ∧ ((s'.buffers b).Loading ∨ 0 < (s'.buffers b).modifiers)) :
    s'.Contents F := by
  obtain ⟨-, idle, free⟩ := (c.counts b).unused unused
  have absent {index page : Nat} (matched : s'.Bufmatch index page b) (m : Fin n) : ¬ s.Bufmatch index page m := by
    obtain ⟨rfl, has⟩ := matched
    exact (gets index has).2.1 m
  refine c.set b others (fun index page _ => by rw [cells]) (fun index page m matched _ => absent matched m) counts ?_ ?_
  · intro index has
    obtain ⟨inode, -, unknown⟩ := gets index has
    refine ⟨inode, fun loaded none => ?_, fun loaded none _ => ?_, fun dirty => ?_, fun written => absurd written unwritten⟩
    · exact absurd none (unknown.resolve_left loaded).ne'
    · exact absurd none (unknown.resolve_left loaded).ne'
    · rw [still] at dirty
      cases dirty
  intro index page touched
  have before := c.pages index page
  have cell := congrFun (congrFun cells index) page
  have file : s'.files (F.inode index) page = _ := congrArg Cell.file cell
  have released : s'.released index page = _ := congrArg Cell.released cell
  have releases : s'.releases index page = _ := congrArg Cell.releases cell
  have saved : s'.saved index page = _ := congrArg Cell.saved cell
  have saves : ¬ s.saved index page < s.releases index page := by
    intro late
    obtain ⟨m, matched, dirty⟩ := before.dirty late
    rcases touched with here | there
    · rw [c.unique index page m b matched here, clean] at dirty
      cases dirty
    · exact absent there m matched
  refine ⟨saved.le.trans (before.le.trans releases.ge), fun late => ?_, fun _ x last => ?_⟩
  · rw [saved, releases] at late
    exact absurd late saves
  rw [released] at last
  rw [file]
  rcases touched with here | there
  · obtain ⟨rfl, has⟩ := here
    have agrees := c.agrees b index has
    have known := agrees.last (Buffer.loading_free free) idle
    have same := agrees.clean (Buffer.loading_free free) idle (.inl clean)
    rw [same] at known
    rw [last] at known
    exact known
  · exact before.file (fun m matched => absurd matched (absent there m)) x last

end Changed

theorem Contents.of_same (c : s.Contents F) (cells : s'.cell F = s.cell F)
    (buffers : ∀ b, ∃ accesstime, s'.buffers b = { s.buffers b with accesstime }) : s'.Contents F := by
  have same {index page : Nat} {b : Fin n} : s'.Bufmatch index page b ↔ s.Bufmatch index page b := by
    obtain ⟨accesstime, same⟩ := buffers b
    unfold Bufmatch
    rw [same]
  constructor
  · exact fun index page b b' here there => c.unique index page b b' (same.mp here) (same.mp there)
  · intro b
    obtain ⟨accesstime, same⟩ := buffers b
    have counts := c.counts b
    rw [same]
    exact ⟨counts.lockers, counts.modifiers, counts.loading, counts.orphan⟩
  · intro b index has
    obtain ⟨accesstime, same⟩ := buffers b
    rw [same] at has ⊢
    exact c.inode b index has
  · intro b index has
    obtain ⟨accesstime, same⟩ := buffers b
    rw [same] at has ⊢
    rw [cells]
    have agrees := c.agrees b index has
    exact ⟨agrees.last, agrees.clean, agrees.unsaved, agrees.written⟩
  intro index page
  have before := c.pages index page
  have cell := congrFun (congrFun cells index) page
  have file : s'.files (F.inode index) page = _ := congrArg Cell.file cell
  have released : s'.released index page = _ := congrArg Cell.released cell
  have releases : s'.releases index page = _ := congrArg Cell.releases cell
  have saved : s'.saved index page = _ := congrArg Cell.saved cell
  refine ⟨saved.le.trans (before.le.trans releases.ge), fun late => ?_, fun all x last => ?_⟩
  · rw [saved, releases] at late
    obtain ⟨b, matched, dirty⟩ := before.dirty late
    obtain ⟨accesstime, same'⟩ := buffers b
    exact ⟨b, same.mpr matched, by rw [same']; exact dirty⟩
  rw [released] at last
  rw [file]
  refine before.file (fun b matched => ?_) x last
  have loading := all b (same.mpr matched)
  obtain ⟨accesstime, same'⟩ := buffers b
  rw [same'] at loading
  exact loading

theorem Contents.rewind (c : s.Contents F) : s.rewind.Contents F := by
  unfold DirBuffers.rewind
  split
  · exact c.of_same rfl fun b => ⟨0, rfl⟩
  · exact c

end DirBuffers

end OpenAFS.Afs
