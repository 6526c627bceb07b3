import OpenAFS.Callback.Keeping

namespace OpenAFS.Callback

open Lib List
open Function (update)

def noHost : Host where
  cblist := 0
  venusDown := false
  hostDeleted := false
  clientDeleted := false
  resetDone := false
  hfeLater := false
  altAddr := false
  otherHolds := false
  activeCall := 0

def zeroed : Package where
  CB := ⟨fun _ => 0, fun _ => 0, fun _ => 0, fun _ => .unset, fun _ => 0, fun _ => 0, fun _ => 0, fun _ => 0, fun _ => 0⟩
  FE := ⟨fun _ => 0, fun _ => 0, fun _ => 0, fun _ => 0, fun _ => 0, fun _ => 0, fun _ => false⟩
  CBfree := 0
  FEfree := 0
  hashTable := fun _ => 0
  timeout := fun _ => 0
  tfirst := 0
  nCBs := 0
  nFEs := 0
  nblks := 0
  host := fun _ => noHost
  hostList := []
  approxTime := 0

def Package.freeFEs : Nat → Package → Package
  | 0, s => s
  | n + 1, s => freeFEs n (s.freeFE (n + 1))

def Package.freeCBs : Nat → Package → Package
  | 0, s => s
  | n + 1, s => freeCBs n (s.freeCB (n + 1))

def initCallBack (nblks approxTime : Nat) : Package :=
  let s := { zeroed with tfirst := Package.cbTime approxTime, approxTime := approxTime, nFEs := nblks }
  let s := Package.freeFEs nblks s
  let s := Package.freeCBs nblks { s with nCBs := nblks }
  { s with nblks := nblks }

theorem freeFEs_eq (n m : Nat) (s : Package) (free : Linked id s.FE.vnode s.FEfree (List.range' (n + 1) m)) :
    ∃ vnode unique FEfree,
      Package.freeFEs n s = { s with FE.vnode := vnode, FE.unique := unique, FEfree := FEfree, nFEs := s.nFEs - n } ∧
        Linked id vnode FEfree (List.range' 1 (n + m)) := by
  induction n generalizing s m with
  | zero => exact ⟨s.FE.vnode, s.FE.unique, s.FEfree, rfl, by rwa [Nat.zero_add] at free ⊢⟩
  | succ n ih =>
    have pushed : Linked id (update s.FE.vnode (n + 1) s.FEfree) (n + 1) (List.range' (n + 1) (m + 1)) := by
      apply free_push free (Nat.succ_ne_zero n)
      rw [mem_range'_1]
      omega
    obtain ⟨vnode, unique, FEfree, done, linked⟩ := ih (m + 1) (s.freeFE (n + 1)) pushed
    refine ⟨vnode, unique, FEfree, done.trans ?_, ?_⟩
    · rw [Package.freeFE, Nat.sub_sub, Nat.add_comm 1 n]
    · rwa [Nat.add_right_comm, Nat.add_assoc]

theorem freeCBs_eq (n m : Nat) (s : Package) (free : Linked id s.CB.cnext s.CBfree (List.range' (n + 1) m)) :
    ∃ cnext fhead CBfree,
      Package.freeCBs n s = { s with CB.cnext := cnext, CB.fhead := fhead, CBfree := CBfree, nCBs := s.nCBs - n } ∧
        Linked id cnext CBfree (List.range' 1 (n + m)) := by
  induction n generalizing s m with
  | zero => exact ⟨s.CB.cnext, s.CB.fhead, s.CBfree, rfl, by rwa [Nat.zero_add] at free ⊢⟩
  | succ n ih =>
    have pushed : Linked id (update s.CB.cnext (n + 1) s.CBfree) (n + 1) (List.range' (n + 1) (m + 1)) := by
      apply free_push free (Nat.succ_ne_zero n)
      rw [mem_range'_1]
      omega
    obtain ⟨cnext, fhead, CBfree, done, linked⟩ := ih (m + 1) (s.freeCB (n + 1)) pushed
    refine ⟨cnext, fhead, CBfree, done.trans ?_, ?_⟩
    · rw [Package.freeCB, Nat.sub_sub, Nat.add_comm 1 n]
    · rwa [Nat.add_right_comm, Nat.add_assoc]

def Lists.fresh (nblks : Nat) : Lists := ⟨List.range' 1 nblks, List.range' 1 nblks, [], [], [], [], []⟩

theorem Intact.init (nblks approxTime : Nat) : Intact [] (initCallBack nblks approxTime) (.fresh nblks) := by
  obtain ⟨vnode, unique, FEfree, files, freeFE⟩ := freeFEs_eq nblks 0
    { zeroed with tfirst := Package.cbTime approxTime, approxTime := approxTime, nFEs := nblks } rfl
  obtain ⟨cnext, fhead, CBfree, blocks, freeCB⟩ := freeCBs_eq nblks 0
    { Package.freeFEs nblks { zeroed with
        tfirst := Package.cbTime approxTime, approxTime := approxTime, nFEs := nblks } with nCBs := nblks }
    (by rw [files]; rfl)
  rw [files] at blocks
  have start : initCallBack nblks approxTime = { zeroed with
      tfirst := Package.cbTime approxTime, approxTime := approxTime, nblks := nblks, nFEs := nblks - nblks,
      nCBs := nblks - nblks, FE.vnode := vnode, FE.unique := unique, FEfree := FEfree, CB.cnext := cnext, CB.fhead := fhead, CBfree := CBfree } := by
    rw [initCallBack, files, blocks]
  rw [start]
  exact {
    loose := {
      shape := {
        freeCB := freeCB
        freeFE := freeFE
        table := fun _ _ => rfl
        chains := nofun
        hosts := fun _ => rfl
        queues := fun _ => rfl }
      blocks := by rw [Lists.fresh, nil_append, append_nil]
      files := by rw [Lists.fresh, nil_append, append_nil]
      nCBs := by simp [Lists.fresh]
      nFEs := by simp [Lists.fresh]
      homes := nofun
      ncbs := nofun
      single := nofun
      distinct := nofun
      delayed := nofun
      queues := nofun }
    home := nofun
    hosted := fun _ => Iff.rfl
    timed := fun _ => Iff.rfl }

/-- What the file server may ask of the package. The hosts a caller holds are given with the operations that look at
them, and how often a loop is turned before it is given up. -/
inductive Operation where
  | addCallBack (host : Nat) (fid : AFSFid) (holds : List Nat) (tries : Nat)
  | addVolCallBack (host : Nat) (fid : AFSFid) (holds : List Nat) (tries : Nat)
  | addBulkCallBack (host : Nat) (fid : AFSFid) (holds : List Nat) (tries : Nat)
  | breakCallBack (xhost : Nat) (fid : AFSFid) (flag : Bool) (tries : Nat)
  | deleteCallBack (host : Nat) (fid : AFSFid)
  | deleteFileCallBacks (fid : AFSFid)
  | deleteAllCallBacks (host : Nat)
  | breakDelayedCallBacks (host : Nat) (holds : List Nat) (tries : Nat)
  | breakVolumeCallBacks (volume tries : Nat)
  | breakVolumeCallBacksLater (volume : Nat)
  | breakLaterCallBacks (tries : Nat)
  | cleanupTimedOutCallBacks
  | release (host : Nat)

def addCallBack (host : Nat) (fid : AFSFid) (type : Status) (holds : List Nat) (tries : Nat) : Do Unit := do
  let _ ← Act.pause .outside
  let _ ← addCallBack1 host fid 0 type holds tries

def Operation.act : Operation → Do Unit
  | addCallBack host fid holds tries => Callback.addCallBack host fid .normal holds tries
  | addVolCallBack host fid holds tries => Callback.addCallBack host fid .volume holds tries
  | addBulkCallBack host fid holds tries => Callback.addCallBack host fid .bulk holds tries
  | breakCallBack xhost fid flag tries => Callback.breakCallBack xhost fid flag tries tries
  | deleteCallBack host fid => Callback.deleteCallBack host fid
  | deleteFileCallBacks fid => Act.change fun s => s.deleteFileCallBacks fid
  | deleteAllCallBacks host => Act.change fun s => s.deleteAllCallBacks host true
  | breakDelayedCallBacks host holds tries => do
    let _ ← Callback.breakDelayedCallBacks host holds tries
  | breakVolumeCallBacks volume tries => Callback.breakVolumeCallBacks volume tries
  | breakVolumeCallBacksLater volume => Act.change fun s => s.breakVolumeCallBacksLater volume
  | breakLaterCallBacks tries => Callback.breakLaterCallBacks tries
  | cleanupTimedOutCallBacks => do
    let _ ← Act.run Package.cleanupTimedOutCallBacks
  | release host => Callback.release host

section

-- the runs over the whole hash table are not to be unfolded
attribute [local irreducible] Package.breakTable Package.markTable Package.unchainLater

variable {strict : Prop}

theorem sane_addCallBack {host tries : Nat} {fid : AFSFid} {type : Status} {holds : List Nat} (fine : Queued type 0) :
    Sane strict (addCallBack host fid type holds tries) fun _ => True :=
  .bind (.pause _) fun _ _ => .bind (sane_addCallBack1 fine) fun _ _ => .pure trivial

theorem sane_act (op : Operation) : Sane strict op.act fun _ => True := by
  cases op with
  | addCallBack host fid holds tries => exact sane_addCallBack (.inl rfl)
  | addVolCallBack host fid holds tries => exact sane_addCallBack (.inr (.inl rfl))
  | addBulkCallBack host fid holds tries => exact sane_addCallBack (.inr (.inr (.inl rfl)))
  | breakCallBack xhost fid flag tries => exact sane_breakCallBack xhost fid flag tries tries
  | deleteCallBack host fid => exact sane_deleteCallBack host fid
  | deleteFileCallBacks fid => exact sane_change fun _ _ _ intact _ => intact.deleteFileCallBacks fid
  | deleteAllCallBacks host => exact sane_deleteAll host
  | breakDelayedCallBacks host holds tries =>
    exact .bind (sane_breakDelayedCallBacks host holds tries) fun _ _ => .pure trivial
  | breakVolumeCallBacks volume tries => exact sane_breakVolumeCallBacks volume tries
  | breakVolumeCallBacksLater volume =>
    exact sane_change fun _ _ _ intact _ => intact.breakVolumeCallBacksLater volume
  | breakLaterCallBacks tries => exact sane_breakLaterCallBacks tries
  | cleanupTimedOutCallBacks =>
    refine sane_then (sane_run ?_) fun _ => .pure trivial
    intro held s l intact _
    obtain ⟨found, s', done, kept⟩ := intact.cleanup
    exact ⟨found, s', done, kept, trivial⟩
  | release host => exact sane_release host

end

def Outside (s s' : Package) : Prop :=
  ∃ host hostList approxTime, (∀ h, (host h).cblist = (s.host h).cblist) ∧ s' = s.outside host hostList approxTime

abbrev Turns (allowed : Point → Package → Prop) : Shared Package Reply Point → Shared Package Reply Point → Prop :=
  Shared.Step (fun act => ∃ op : Operation, act = op.act) Outside allowed

def Reachable (allowed : Point → Package → Prop) (nblks : Nat) (c : Shared Package Reply Point) : Prop :=
  ∃ approxTime, Relation.ReflTransGen (Turns allowed) ⟨initCallBack nblks approxTime, []⟩ c

theorem inv_init (strict : Prop) (nblks approxTime : Nat) : inv strict (initCallBack nblks approxTime) [] :=
  ⟨.fresh nblks, .init nblks approxTime, rfl, fun _ => nofun⟩

theorem inv_outside {strict : Prop} {s s' : Package} {held : List Nat} (moved : Outside s s')
    (here : inv strict s held) : inv strict s' held := by
  obtain ⟨host, hostList, approxTime, same, rfl⟩ := moved
  obtain ⟨l, intact, none, full⟩ := here
  exact ⟨l, intact.outside same hostList approxTime, none, full⟩

variable {nblks : Nat} {c : Shared Package Reply Point}

theorem Reachable.safe {strict : Prop}
    (run : Reachable (allowed strict) nblks c) : Shared.Safe (inv strict) (allowed strict) c := by
  obtain ⟨approxTime, steps⟩ := run
  have start : Shared.Safe (inv strict) (allowed strict) (⟨initCallBack nblks approxTime, []⟩ : Shared _ Reply _) :=
    ⟨[], inv_init strict nblks approxTime, .nil⟩
  refine Shared.run_safe steps inv_perm ?_ (fun _ _ _ moved => inv_outside moved) start
  rintro act ⟨op, rfl⟩ s others here
  exact (sane_act op s others here).weaken fun _ _ _ both => both.1

theorem Reachable.inv {strict : Prop} {nblks : Nat} {c : Shared Package Reply Point} (run : Reachable (allowed strict) nblks c) :
    ∃ held, inv strict c.state held ∧ (c.threads = [] → held = []) := by
  obtain ⟨owns, here, each⟩ := run.safe
  refine ⟨owns.flatten, here, ?_⟩
  intro none
  rw [none] at each
  rw [List.forall₂_nil_left_iff.mp each, flatten_nil]

end OpenAFS.Callback
