import OpenAFS.Viced.Volume

namespace OpenAFS.Viced.Copy

open Function (update_self update_of_ne)
open Lib

def copyBuffSize : Nat := 8192

abbrev ValidIno (ino : Nat) : Prop := ino ≠ 2 ^ 64 - 1 ∧ ino ≠ 0

structure File where
  links : Nat
  bytes : List UInt8
  deriving DecidableEq

/-- The inodes, the vnode that is copied with its `changed_oldTime`, and whether the volume is online. -/
structure State where
  inodes : Nat → Option File
  vnode : Vnode
  changedOldTime : Bool := false
  online : Bool := true

/-- How `IH_CREATE` goes: no file is made, one is made and left without its owner and mode, or all is well. -/
inductive Creation where
  | refused
  | unowned (ino : Nat)
  | made (ino : Nat)

/-- How `IH_DEC` goes: all is well, it fails with the count as it was, or it fails to remove a file without links. -/
inductive Removal where
  | works
  | kept
  | counted
  deriving DecidableEq

structure Copying where
  memory : Bool
  /-- The `errno` of opening the old inode, 0 where it works. -/
  opened : Nat
  created : Creation
  reopened : Bool
  /-- How many bytes `FDH_READ` gives at most, or it fails. -/
  read : Nat → Option Nat
  /-- How many bytes `FDH_WRITE` gets out at most, or its `errno`. -/
  write : Nat → Except Nat Nat
  removed : Removal
  dropped : Removal
  synced : Bool

inductive Stop where
  | full
  | broken
  deriving DecidableEq

/-- What a call returns; `stopped` says why the copy has stopped. -/
structure Result where
  code : Int
  state : State
  stopped : Option Stop := none

def State.takeOffline (s : State) : State := { s with online := false }

def State.setInode (s : State) (ino : Nat) (file : Option File) : State :=
  { s with inodes := Function.update s.inodes ino file }

@[simp] theorem State.setInode_vnode (s : State) (ino : Nat) (file : Option File) : (s.setInode ino file).vnode = s.vnode := rfl

/-- `IH_DEC`: whether it works, and what it leaves. -/
def ihDec (how : Removal) (ino : Nat) (s : State) : Bool × State :=
  match s.inodes ino with
  | none => (how = .works, s)
  | some file =>
    match how with
    | .kept => (false, s)
    | how =>
      if file.links = 1 then
        if how = .works then (true, s.setInode ino none) else (false, s.setInode ino (some { file with links := 0 }))
      else (true, s.setInode ino (some { file with links := file.links - 1 }))

section Call

variable (env : Copying)

def copyLoop (source : List UInt8) : Nat → Nat → Nat → Nat → List UInt8 → List UInt8 × Option Stop
  | 0, _, _, _, copy => (copy, none)
  | fuel + 1, pass, size, position, copy =>
    if 0 < size then
      let (length, size) := if copyBuffSize < size then (copyBuffSize, size - copyBuffSize) else (size, 0)
      match env.read pass with
      | none => (copy, some .broken)
      | some rdlen =>
        let buff := pread source position (min rdlen length)
        if buff.length ≠ length then (copy, some .broken)
        else
          match env.write pass with
          | .error errno => (copy, some (if (errno : Int) = enospc then .full else .broken))
          | .ok wrlen =>
            let copy := copy ++ buff.take wrlen
            if (buff.take wrlen).length ≠ length then (copy, some .broken)
            else copyLoop source fuel (pass + 1) size (position + length) copy
    else (copy, none)

def copyInto (old : File) (ino : Nat) (s : State) : Option Result :=
  let (copy, stopped) := copyLoop env old.bytes s.vnode.length 0 s.vnode.length 0 []
  let s := s.setInode ino (some ⟨1, copy⟩)
  match stopped with
  | some .full =>
    let (rc, s) := ihDec env.removed ino s
    -- The volume goes offline where the new inode could be removed.
    some ⟨enospc, if rc then s.takeOffline else s, stopped⟩
  | some .broken => some ⟨eio, (ihDec env.removed ino s).2.takeOffline, stopped⟩
  | none =>
    let (rc, s) := ihDec env.dropped s.vnode.inode s
    if ¬ rc then none
    else if ¬ env.synced then none
    else
      some ⟨0, { s with vnode := { s.vnode with inode := ino, cloned := false }, changedOldTime := true }, none⟩

/-- `CopyOnWrite`; `none` is a failed assertion. -/
def copyOnWrite (s : State) : Option Result :=
  if ¬ env.memory then some ⟨eio, s, none⟩
  else if ¬ ValidIno s.vnode.inode then some ⟨eio, s.takeOffline, none⟩
  else if env.opened ≠ 0 then some ⟨env.opened, s.takeOffline, none⟩
  else
    match s.inodes s.vnode.inode with
    | none => some ⟨enoent, s.takeOffline, none⟩
    | some old =>
      match env.created with
      | .refused => some ⟨enospc, s, none⟩
      | .unowned ino =>
        some ⟨enospc, if (s.inodes ino).isSome then s else s.setInode ino (some ⟨0, []⟩), none⟩
      | .made ino =>
        if ¬ ValidIno ino ∨ (s.inodes ino).isSome then some ⟨enospc, s, none⟩
        else if ¬ env.reopened then none
        else copyInto env old ino s

end Call

variable {env : Copying} {source copy : List UInt8} {total pass size position fuel : Nat}

def chunk (total pass : Nat) : Nat := min copyBuffSize (total - copyBuffSize * pass)

def Copying.Reads (env : Copying) (source : List UInt8) (total pass : Nat) : Prop :=
  copyBuffSize * pass + chunk total pass ≤ source.length ∧ ∃ rdlen ≥ chunk total pass, env.read pass = some rdlen

def Copying.Writes (env : Copying) (total pass : Nat) : Prop := ∃ wrlen ≥ chunk total pass, env.write pass = .ok wrlen

def Copying.Through (env : Copying) (source : List UInt8) (total : Nat) : Prop :=
  ∀ pass, copyBuffSize * pass < total → env.Reads source total pass ∧ env.Writes total pass

/-- The first pass that does not work is a `write` to a full disk. -/
def Copying.Fills (env : Copying) (source : List UInt8) (total : Nat) : Prop :=
  ∃ pass, copyBuffSize * pass < total ∧ env.Reads source total pass ∧ env.write pass = .error 28 ∧
    ∀ p < pass, env.Reads source total p ∧ env.Writes total p

def Copying.Until (env : Copying) (source : List UInt8) (total pass : Nat) : Prop :=
  ∀ p < pass, copyBuffSize * p < total → env.Reads source total p ∧ env.Writes total p

theorem Copying.Until.earlier (before : env.Until source total pass) (more : copyBuffSize * pass < total) {p : Nat}
    (earlier : p < pass) : env.Reads source total p ∧ env.Writes total p := by
  refine before p earlier ?_
  unfold copyBuffSize at *
  omega

theorem Copying.Until.fills_iff (before : env.Until source total pass) (more : copyBuffSize * pass < total)
    (stops : ¬ (env.Reads source total pass ∧ env.Writes total pass)) :
    env.Fills source total ↔ env.Reads source total pass ∧ env.write pass = .error 28 := by
  constructor
  · rintro ⟨p, inside, reads, full, earlier⟩
    rcases Nat.lt_trichotomy p pass with less | rfl | greater
    · obtain ⟨-, wrlen, -, written⟩ := before p less inside
      rw [full] at written
      cases written
    · exact ⟨reads, full⟩
    · exact absurd (earlier pass greater) stops
  · rintro ⟨reads, full⟩
    exact ⟨pass, more, reads, full, fun p earlier => before.earlier more earlier⟩

structure Ended (env : Copying) (source : List UInt8) (total : Nat) (r : List UInt8 × Option Stop) : Prop where
  through : r.2 = none ↔ env.Through source total
  full : r.2 = some .full ↔ env.Fills source total
  copied : r.2 = none → r.1 = source.take total ∧ total ≤ source.length

theorem Ended.stop (before : env.Until source total pass) (more : copyBuffSize * pass < total)
    (stops : ¬ (env.Reads source total pass ∧ env.Writes total pass)) {why : Stop}
    (full : why = .full ↔ env.Reads source total pass ∧ env.write pass = .error 28) :
    Ended env source total (copy, some why) where
  through := iff_of_false (Option.some_ne_none why) fun through => stops (through pass more)
  full := by
    rw [before.fills_iff more stops, ← full]
    exact Option.some_inj
  copied none := absurd none (Option.some_ne_none why)

theorem Ended.finish (done : total ≤ copyBuffSize * pass) (inside : total ≤ source.length)
    (before : env.Until source total pass) : Ended env source total (source.take total, none) := by
  have all : env.Through source total := fun p more => before p (by unfold copyBuffSize at *; omega) more
  refine ⟨iff_of_true rfl all, iff_of_false (Option.some_ne_none _).symm ?_, fun _ => ⟨rfl, inside⟩⟩
  rintro ⟨p, more, reads, full, -⟩
  obtain ⟨-, wrlen, -, written⟩ := all p more
  rw [full] at written
  cases written

theorem copyLoop_ended (enough : size ≤ fuel) (rest : size + position = total)
    (here : 0 < size → position = copyBuffSize * pass) (past : size = 0 → total ≤ copyBuffSize * pass)
    (inside : position ≤ source.length) (before : env.Until source total pass) :
    Ended env source total (copyLoop env source fuel pass size position (source.take position)) := by
  induction fuel generalizing pass size position with
  | zero =>
    have none : size = 0 := Nat.le_zero.mp enough
    obtain rfl : position = total := by omega
    exact .finish (past none) inside before
  | succ fuel ih =>
    unfold copyLoop
    split
    · rename_i more
      have start := here more
      have left : copyBuffSize * pass < total := by omega
      have halves : (if copyBuffSize < size then (copyBuffSize, size - copyBuffSize) else (size, 0)) =
          (chunk total pass, size - chunk total pass) := by
        unfold chunk
        split <;> ext <;> dsimp only <;> omega
      have some : 0 < chunk total pass ∧ chunk total pass ≤ size := by
        unfold chunk copyBuffSize at *
        omega
      rw [halves]
      cases reading : env.read pass with
      | none =>
        have unread : ¬ env.Reads source total pass := by
          rintro ⟨-, rdlen, -, read⟩
          rw [reading] at read
          cases read
        exact .stop before left (fun both => unread both.1) (iff_of_false (by decide) fun both => unread both.1)
      | some rdlen =>
        dsimp only
        have reads : (pread source position (min rdlen (chunk total pass))).length = chunk total pass ↔
            env.Reads source total pass := by
          unfold Copying.Reads
          rw [length_pread, reading, start]
          constructor
          · intro whole
            exact ⟨by omega, rdlen, by omega, rfl⟩
          · rintro ⟨within, _, long, same⟩
            cases same
            omega
        split
        · rename_i short
          have unread : ¬ env.Reads source total pass := fun read => short (reads.mpr read)
          exact .stop before left (fun both => unread both.1) (iff_of_false (by decide) fun both => unread both.1)
        rename_i whole
        have whole := not_not.mp whole
        have read := reads.mp whole
        cases writing : env.write pass with
        | error errno =>
          refine .stop before left ?_ ?_
          · rintro ⟨-, wrlen, -, written⟩
            rw [writing] at written
            cases written
          rw [and_iff_right read, writing, Except.error.injEq]
          have code : (errno : Int) = enospc ↔ errno = 28 := by
            unfold enospc
            omega
          rw [if_congr code rfl rfl]
          split
          · rename_i same
            exact iff_of_true rfl same
          · rename_i other
            exact iff_of_false (by decide) other
        | ok wrlen =>
          dsimp only
          have writes : ((pread source position (min rdlen (chunk total pass))).take wrlen).length = chunk total pass ↔
              env.Writes total pass := by
            unfold Copying.Writes
            rw [List.length_take, whole, writing]
            constructor
            · intro long
              exact ⟨wrlen, by omega, rfl⟩
            · rintro ⟨_, long, same⟩
              cases same
              omega
          split
          · rename_i short
            have unwritten : ¬ env.Writes total pass := fun written => short (writes.mpr written)
            refine .stop before left (fun both => unwritten both.2) (iff_of_false (by decide) fun both => ?_)
            rw [writing] at both
            cases both.2
          rename_i long
          have long := not_not.mp long
          have written := writes.mp long
          have piece : source.take position ++ (pread source position (min rdlen (chunk total pass))).take wrlen =
              source.take (position + chunk total pass) := by
            have all : min wrlen (min rdlen (chunk total pass)) = chunk total pass := by
              rw [List.length_take, whole] at long
              rw [length_pread] at whole
              omega
            rw [pread, List.take_take, all, ← List.take_add]
          rw [piece]
          have within := read.1
          have next : env.Until source total (pass + 1) := by
            intro p earlier inside
            rcases Nat.lt_succ_iff_lt_or_eq.mp earlier with less | rfl
            · exact before p less inside
            · exact ⟨read, written⟩
          refine ih (by omega) (by omega) (fun some => ?_) (fun none => ?_) (by omega) next
          · unfold chunk copyBuffSize at *
            omega
          · unfold chunk copyBuffSize at *
            omega
    · have none : size = 0 := by omega
      obtain rfl : position = total := by omega
      exact .finish (past none) inside before

def State.links (s : State) (ino : Nat) : Nat := ((s.inodes ino).map File.links).getD 0

/-- The vnode has a new inode with the data of the old one, which is used once less. -/
structure Installed (s s' : State) (old : File) (ino : Nat) : Prop where
  source : s.inodes s.vnode.inode = some old
  fresh : s.inodes ino = none
  whole : s.vnode.length ≤ old.bytes.length
  vnode : s'.vnode = { s.vnode with inode := ino, cloned := false }
  copy : s'.inodes ino = some ⟨1, old.bytes.take s.vnode.length⟩
  links : s'.links s.vnode.inode + 1 = s.links s.vnode.inode
  others : ∀ i, i ≠ ino → i ≠ s.vnode.inode → s'.inodes i = s.inodes i

/-- A call does all or nothing, and a full disk alone does not put the volume offline. -/
structure CopySafe (s : State) (r : Result) : Prop where
  all : r.code = 0 → ∃ old ino, Installed s r.state old ino
  nothing : r.code ≠ 0 → r.state.vnode = s.vnode ∧ r.state.inodes = s.inodes
  online : r.stopped = some .full → r.state.inodes = s.inodes → s.online → r.state.online

structure Begins (env : Copying) (s : State) (old : File) : Prop where
  memory : env.memory
  valid : ValidIno s.vnode.inode
  opened : env.opened = 0
  source : s.inodes s.vnode.inode = some old

structure Loops (env : Copying) (s : State) (old : File) (ino : Nat) : Prop extends Begins env s old where
  made : env.created = .made ino
  usable : ValidIno ino
  fresh : s.inodes ino = none
  reopened : env.reopened

/-- When a call is safe: no inode is made and left without its owner; the disk does not fill unless the volume is offline
already and the new inode can be removed; after any other failure it can be removed; and the old inode has a link to lose. -/
structure CopyFine (env : Copying) (s : State) : Prop where
  owned : ∀ old ino, Begins env s old → env.created = .unowned ino → s.inodes ino ≠ none
  full : ∀ old ino, Loops env s old ino → env.Fills old.bytes s.vnode.length → env.removed = .works ∧ ¬ s.online
  broken : ∀ old ino, Loops env s old ino → ¬ env.Through old.bytes s.vnode.length →
    ¬ env.Fills old.bytes s.vnode.length → env.removed = .works
  linked : ∀ old ino, Loops env s old ino → env.Through old.bytes s.vnode.length → env.synced → env.dropped ≠ .kept →
    0 < old.links

variable {s : State} {old : File} {ino : Nat}

theorem CopySafe.unchanged {code : Int} {s' : State} (failure : code ≠ 0) (vnode : s'.vnode = s.vnode)
    (inodes : s'.inodes = s.inodes) : CopySafe s ⟨code, s', none⟩ :=
  ⟨fun success => absurd success failure, fun _ => ⟨vnode, inodes⟩, fun full => by cases full⟩

theorem copyOnWrite_early (early : ∀ old, ¬ Begins env s old) {r : Result} (returned : copyOnWrite env s = some r) :
    CopySafe s r := by
  unfold copyOnWrite at returned
  by_cases memory : env.memory = true
  · rw [if_neg (not_not_intro memory)] at returned
    by_cases valid : ValidIno s.vnode.inode
    · rw [if_neg (not_not_intro valid)] at returned
      by_cases opened : env.opened = 0
      · rw [if_neg (not_not_intro opened)] at returned
        cases source : s.inodes s.vnode.inode with
        | none =>
          rw [source] at returned
          cases returned
          exact .unchanged (by decide) rfl rfl
        | some old => exact absurd ⟨memory, valid, opened, source⟩ (early old)
      · rw [if_pos opened] at returned
        cases returned
        exact .unchanged (by exact_mod_cast opened) rfl rfl
    · rw [if_pos valid] at returned
      cases returned
      exact .unchanged (by decide) rfl rfl
  · rw [if_pos memory] at returned
    cases returned
    exact .unchanged (by decide) rfl rfl

theorem copyOnWrite_begins (begins : Begins env s old) : copyOnWrite env s = match env.created with
    | .refused => some ⟨enospc, s, none⟩
    | .unowned ino => some ⟨enospc, if (s.inodes ino).isSome then s else s.setInode ino (some ⟨0, []⟩), none⟩
    | .made ino =>
      if ¬ ValidIno ino ∨ (s.inodes ino).isSome then some ⟨enospc, s, none⟩
      else if ¬ env.reopened then none
      else copyInto env old ino s := by
  rw [copyOnWrite, if_neg (not_not_intro begins.memory), if_neg (not_not_intro begins.valid),
    if_neg (not_not_intro begins.opened), begins.source]

theorem copyOnWrite_unmade (begins : Begins env s old) (early : ∀ ino, ¬ Loops env s old ino)
    (owned : ∀ ino, env.created = .unowned ino → s.inodes ino ≠ none) {r : Result}
    (returned : copyOnWrite env s = some r) : CopySafe s r := by
  rw [copyOnWrite_begins begins] at returned
  cases created : env.created with
  | refused =>
    rw [created] at returned
    cases returned
    exact .unchanged (by decide) rfl rfl
  | unowned ino =>
    rw [created] at returned
    dsimp only at returned
    rw [if_pos (Option.isSome_iff_ne_none.mpr (owned ino created))] at returned
    cases returned
    exact .unchanged (by decide) rfl rfl
  | made ino =>
    rw [created] at returned
    dsimp only at returned
    split at returned
    · cases returned
      exact .unchanged (by decide) rfl rfl
    rename_i usable
    rw [not_or, not_not] at usable
    split at returned
    · cases returned
    · rename_i reopened
      exact absurd ⟨begins, created, usable.1, Option.not_isSome_iff_eq_none.mp usable.2, not_not.mp reopened⟩ (early ino)

theorem copyLoop_first (env : Copying) (old : File) (s : State) : Ended env old.bytes s.vnode.length
    (copyLoop env old.bytes s.vnode.length 0 s.vnode.length 0 []) :=
  copyLoop_ended (Nat.le_refl _) rfl (fun _ => rfl) (fun none => by omega) (Nat.zero_le _)
    (fun _ earlier => absurd earlier (Nat.not_lt_zero _))

theorem ihDec_made (fresh : s.inodes ino = none) (how : Removal) (copy : List UInt8) :
    ((ihDec how ino (s.setInode ino (some ⟨1, copy⟩))).1 ↔ how = .works) ∧
      (ihDec how ino (s.setInode ino (some ⟨1, copy⟩))).2.vnode = s.vnode ∧
      (ihDec how ino (s.setInode ino (some ⟨1, copy⟩))).2.online = s.online ∧
      ((ihDec how ino (s.setInode ino (some ⟨1, copy⟩))).2.inodes = s.inodes ↔ how = .works) := by
  have apart : ∀ file, Function.update s.inodes ino (some file) ≠ s.inodes := by
    intro file same
    have here := congrFun same ino
    rw [update_self, fresh] at here
    cases here
  unfold ihDec State.setInode
  cases how <;> simp [apart, fresh, Function.update_eq_self_iff]

theorem copyOnWrite_loops (loops : Loops env s old ino) : copyOnWrite env s = copyInto env old ino s := by
  have usable : ¬ (¬ ValidIno ino ∨ (s.inodes ino).isSome) := by
    rw [not_or, not_not, loops.fresh]
    exact ⟨loops.usable, Bool.false_ne_true⟩
  rw [copyOnWrite_begins loops.toBegins, loops.made]
  dsimp only
  rw [if_neg usable, if_neg (not_not_intro loops.reopened)]

theorem copyInto_full (loops : Loops env s old ino) (full : env.Fills old.bytes s.vnode.length) :
    (∀ r, copyInto env old ino s = some r → CopySafe s r) ↔ env.removed = .works ∧ ¬ s.online := by
  have stopped := (copyLoop_first env old s).full.mpr full
  have removed := ihDec_made loops.fresh env.removed (copyLoop env old.bytes s.vnode.length 0 s.vnode.length 0 []).1
  unfold copyInto
  dsimp only
  rw [stopped]
  generalize ihDec env.removed ino _ = r at removed
  obtain ⟨works, vnode, online, inodes⟩ := removed
  constructor
  · intro safe
    have here := safe _ rfl
    have back := (here.nothing (by decide : enospc ≠ 0)).2
    have removed : env.removed = .works := by
      rw [← inodes, ← back]
      split <;> rfl
    have done := works.mpr removed
    refine ⟨removed, fun was => ?_⟩
    have stays := here.online rfl back was
    rw [if_pos done] at stays
    cases stays
  · rintro ⟨removed, offline⟩ r returned
    cases returned
    rw [if_pos (works.mpr removed)]
    exact ⟨fun success => absurd success (by decide : enospc ≠ 0), fun _ => ⟨vnode, inodes.mpr removed⟩,
      fun _ _ was => absurd was offline⟩

theorem copyInto_broken (loops : Loops env s old ino) (stops : ¬ env.Through old.bytes s.vnode.length)
    (other : ¬ env.Fills old.bytes s.vnode.length) :
    (∀ r, copyInto env old ino s = some r → CopySafe s r) ↔ env.removed = .works := by
  have ended := copyLoop_first env old s
  have removed := ihDec_made loops.fresh env.removed (copyLoop env old.bytes s.vnode.length 0 s.vnode.length 0 []).1
  have stopped : (copyLoop env old.bytes s.vnode.length 0 s.vnode.length 0 []).2 = some .broken := by
    cases why : (copyLoop env old.bytes s.vnode.length 0 s.vnode.length 0 []).2 with
    | none => exact absurd (ended.through.mp why) stops
    | some why' =>
      cases why' with
      | full => exact absurd (ended.full.mp why) other
      | broken => rfl
  unfold copyInto
  dsimp only
  rw [stopped]
  generalize ihDec env.removed ino _ = r at removed
  obtain ⟨-, vnode, -, inodes⟩ := removed
  constructor
  · intro safe
    exact inodes.mp ((safe _ rfl).nothing (by decide : eio ≠ 0)).2
  · intro removed r returned
    cases returned
    exact ⟨fun success => absurd success (by decide : eio ≠ 0), fun _ => ⟨vnode, inodes.mpr removed⟩, fun full => by cases full⟩

theorem ihDec_old (source : s.inodes ino = some old) (how : Removal) (works : (ihDec how ino s).1) :
    how ≠ .kept ∧ (ihDec how ino s).2.vnode = s.vnode ∧ (ihDec how ino s).2.links ino = old.links - 1 ∧
      ∀ i ≠ ino, (ihDec how ino s).2.inodes i = s.inodes i := by
  unfold ihDec State.setInode State.links at *
  rw [source] at works ⊢
  cases how with
  | kept => cases works
  | works =>
    by_cases last : old.links = 1
    · refine ⟨by decide, ?_, ?_, fun i other => ?_⟩ <;> simp [last]
      exact update_of_ne other _ _
    · refine ⟨by decide, ?_, ?_, fun i other => ?_⟩ <;> simp [last]
      exact update_of_ne other _ _
  | counted =>
    by_cases last : old.links = 1
    · simp [last] at works
    · refine ⟨by decide, ?_, ?_, fun i other => ?_⟩ <;> simp [last]
      exact update_of_ne other _ _

theorem ihDec_unlinked (source : s.inodes ino = some old) (unlinked : old.links = 0) {how : Removal} (moves : how ≠ .kept) :
    (ihDec how ino s).1 := by
  unfold ihDec
  rw [source]
  cases how with
  | kept => exact absurd rfl moves
  | works | counted => simp [unlinked]

theorem copyInto_through (loops : Loops env s old ino) (through : env.Through old.bytes s.vnode.length) :
    (∀ r, copyInto env old ino s = some r → CopySafe s r) ↔ (env.synced → env.dropped ≠ .kept → 0 < old.links) := by
  have ended := copyLoop_first env old s
  have stopped := ended.through.mpr through
  obtain ⟨copied, whole⟩ := ended.copied stopped
  have apart : s.vnode.inode ≠ ino := by
    intro same
    have taken := loops.source
    rw [same, loops.fresh] at taken
    cases taken
  have counted : s.links s.vnode.inode = old.links := by rw [State.links, loops.source]; rfl
  unfold copyInto
  dsimp only
  rw [stopped, copied]
  have same : (s.setInode ino (some ⟨1, old.bytes.take s.vnode.length⟩)).vnode = s.vnode := rfl
  have new : (s.setInode ino (some ⟨1, old.bytes.take s.vnode.length⟩)).inodes ino =
      some ⟨1, old.bytes.take s.vnode.length⟩ := update_self _ _ _
  have kept : ∀ i ≠ ino, (s.setInode ino (some ⟨1, old.bytes.take s.vnode.length⟩)).inodes i = s.inodes i :=
    fun i other => update_of_ne other _ _
  generalize s.setInode ino (some ⟨1, old.bytes.take s.vnode.length⟩) = s₁ at same new kept
  have source : s₁.inodes s₁.vnode.inode = some old := by rw [same, kept _ apart, loops.source]
  by_cases works : (ihDec env.dropped s₁.vnode.inode s₁).1 = true
  swap
  · rw [if_pos works]
    refine iff_of_true (fun r returned => by cases returned) fun _ moves => ?_
    by_contra none
    exact works (ihDec_unlinked source (Nat.eq_zero_of_not_pos none) moves)
  obtain ⟨moves, vnode, links, others⟩ := ihDec_old source env.dropped works
  rw [if_neg (not_not_intro works)]
  by_cases synced : env.synced = true
  swap
  · rw [if_pos synced]
    exact iff_of_true (fun r returned => by cases returned) fun sync => absurd sync synced
  rw [if_neg (not_not_intro synced)]
  rw [same] at links others
  constructor
  · intro safe _ _
    obtain ⟨old', ino', installed⟩ := (safe _ rfl).all rfl
    have less := installed.links
    omega
  intro linked r returned
  have positive := linked synced moves
  cases returned
  refine ⟨fun _ => ⟨old, ino, loops.source, loops.fresh, whole, ?_, ?_, ?_, ?_⟩,
    fun failure => absurd rfl failure, fun full => by cases full⟩
  · rw [vnode, same]
  · rw [same, others ino apart.symm, new]
  · rw [counted]
    rw [same]
    exact (congrArg (· + 1) links).trans (Nat.sub_add_cancel positive)
  · intro i isNew isOld
    rw [same, others i isOld, kept i isNew]

/-- A call is safe where these hold, and nowhere else. -/
theorem copyOnWrite_safe_iff : (∀ r, copyOnWrite env s = some r → CopySafe s r) ↔ CopyFine env s := by
  constructor
  · intro safe
    refine ⟨fun old ino begins unowned fresh => ?_, fun old ino loops full => ?_, fun old ino loops stops other => ?_,
      fun old ino loops through => ?_⟩
    · have made := copyOnWrite_begins begins
      rw [unowned] at made
      dsimp only at made
      rw [fresh, if_neg (by decide : ¬ (Option.isSome (none : Option File) = true))] at made
      have back := congrFun ((safe _ made).nothing (by decide : enospc ≠ 0)).2 ino
      have left : (s.setInode ino (some ⟨0, []⟩)).inodes ino = some ⟨0, []⟩ := update_self _ _ _
      dsimp only at back
      rw [left, fresh] at back
      cases back
    · rw [copyOnWrite_loops loops] at safe
      exact (copyInto_full loops full).mp safe
    · rw [copyOnWrite_loops loops] at safe
      exact (copyInto_broken loops stops other).mp safe
    · rw [copyOnWrite_loops loops] at safe
      exact (copyInto_through loops through).mp safe
  · intro fine r returned
    by_cases begins : ∃ old, Begins env s old
    · obtain ⟨old, begins⟩ := begins
      by_cases loops : ∃ ino, Loops env s old ino
      · obtain ⟨ino, loops⟩ := loops
        rw [copyOnWrite_loops loops] at returned
        by_cases through : env.Through old.bytes s.vnode.length
        · exact (copyInto_through loops through).mpr (fine.linked old ino loops through) r returned
        · by_cases full : env.Fills old.bytes s.vnode.length
          · exact (copyInto_full loops full).mpr (fine.full old ino loops full) r returned
          · exact (copyInto_broken loops through full).mpr (fine.broken old ino loops through full) r returned
      · exact copyOnWrite_unmade begins (not_exists.mp loops) (fun ino => fine.owned old ino begins) returned
    · exact copyOnWrite_early (not_exists.mp begins) returned

def fullDisk : Copying where
  memory := true
  opened := 0
  created := .made 8
  reopened := true
  read _ := some copyBuffSize
  write _ := .error 28
  removed := .works
  dropped := .works
  synced := true

def clonedFile : State where
  inodes i := if i = 7 then some ⟨2, [65]⟩ else none
  vnode := { type := .file, unique := 1, linkCount := 1, parent := 1, length := 1, inode := 7, cloned := true }

theorem copyOnWrite_fullDisk : ¬ ∀ env s r, copyOnWrite env s = some r → CopySafe s r := by
  intro safe
  have loops : Loops fullDisk clonedFile ⟨2, [65]⟩ 8 :=
    { memory := rfl, valid := ⟨by decide, by decide⟩, opened := rfl, source := rfl, made := rfl
      usable := ⟨by decide, by decide⟩, fresh := rfl, reopened := rfl }
  have fills : fullDisk.Fills [65] 1 :=
    ⟨0, by decide, ⟨by decide, copyBuffSize, by decide, rfl⟩, rfl, fun p earlier => absurd earlier (Nat.not_lt_zero p)⟩
  have here := safe fullDisk clonedFile
  rw [copyOnWrite_loops loops] at here
  exact ((copyInto_full loops fills).mp here).2 rfl

end OpenAFS.Viced.Copy
