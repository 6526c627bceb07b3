import OpenAFS.Callback.Adding
import OpenAFS.Callback.Later

namespace OpenAFS.Callback

open Lib List
open Function (update)

def Package.Hashed (s : Package) (fe : Nat) : Prop :=
  ∃ hash < fehashSize, ∃ chain, Linked s.feAt .next (.head hash) chain ∧ fe ∈ chain

def Package.OnList (s : Package) (fe cb : Nat) : Prop :=
  ∃ list, Linked s.cbAt .next (.first fe) list ∧ cb ∈ list

def Package.Spared (s : Package) (host : Nat) : Prop :=
  ∀ fe, s.Hashed fe → ∃ cb, s.OnList fe cb ∧ s.CB.hhead cb ≠ host

/-- The package is in order but for the callbacks that threads have allocated and not linked yet. Where it matters no
file entry is without callbacks. -/
def inv (strict : Prop) (s : Package) (held : List Nat) : Prop :=
  ∃ l, Intact held s l ∧ l.apart = [] ∧ (strict → Full s l)

/-- Where it matters, the callbacks of a host that is down are deleted with the file entries kept only if no file entry
loses its last callback. -/
def allowed (strict : Prop) (p : Point) (s : Package) : Prop :=
  match p with
  | .outside => True
  | .down _ true => True
  | .down host false => strict → (s.host host).hostDeleted = false → s.Spared host

namespace Intact

variable {held : List Nat} {s : Package} {l : Lists} {fe cb : Nat}

theorem hashed_iff (intact : Intact held s l) : s.Hashed fe ↔ fe ∈ l.entries := by
  constructor
  · rintro ⟨hash, known, chain, linked, inside⟩
    rw [linked.unique (intact.loose.shape.bucket known)] at inside
    exact (List.mem_filter.mp inside).1
  · intro inside
    exact ⟨s.hash fe, hash_lt s fe, _, intact.loose.shape.bucket (hash_lt s fe), by simpa using inside⟩

theorem onList_iff (intact : Intact held s l) (inside : fe ∈ l.entries) :
    s.OnList fe cb ↔ cb ∈ l.chained ∧ s.CB.fhead cb = fe := by
  have chain := intact.loose.shape.chain inside
  constructor
  · rintro ⟨list, linked, member⟩
    rw [linked.unique chain] at member
    simpa using member
  · intro both
    exact ⟨_, chain, by simpa using both⟩

theorem spared (intact : Intact held s l) {host : Nat} (fine : s.Spared host) : Spared s l host := by
  intro fe inside
  obtain ⟨cb, listed, other⟩ := fine fe (intact.hashed_iff.mpr inside)
  obtain ⟨chained, home⟩ := (intact.onList_iff inside).mp listed
  exact ⟨cb, chained, home, other⟩

end Intact

theorem Kept.inv {strict : Prop} {held : List Nat} {s s' : Package} {l : Lists} (kept : Kept held s l s')
    (none : l.apart = []) (full : strict → Full s l) : inv strict s' held := by
  obtain ⟨l', intact, apart, full'⟩ := kept
  exact ⟨l', intact, apart.trans none, fun ask => full' (full ask)⟩

theorem inv_perm {strict : Prop} (s : Package) (held held' : List Nat) (perm : held.Perm held')
    (here : inv strict s held) : inv strict s held' := by
  obtain ⟨l, intact, none, full⟩ := here
  refine ⟨l, { intact with loose := { intact.loose with blocks := ?_ } }, none, full⟩
  exact (List.Perm.append_left _ (List.Perm.append_right _ perm.symm)).trans intact.loose.blocks

section

variable {strict : Prop}

abbrev Sane (strict : Prop) {α : Type} (x : Do α) (post : α → Prop) : Prop :=
  Act.Keeps (inv strict) (allowed strict) x post

theorem sane_host (host : Nat) (f : Host → Host) (same : ∀ h, (f h).cblist = h.cblist) :
    Sane strict (modifyHost host f) fun _ => True := by
  unfold modifyHost modify
  apply Act.Keeps.change
  rintro s others ⟨l, intact, none, full⟩
  refine ⟨_, rfl, l, ?_, none, full⟩
  refine intact.outside ?_ s.hostList s.approxTime
  intro h
  rw [Function.update_apply]
  split
  · rename_i this
    rw [this, same]
  · rfl

theorem sane_change {f : Package → Option Package}
    (fine : ∀ held s l, Intact held s l → l.apart = [] → ∃ s', f s = some s' ∧ Kept held s l s') :
    Sane strict (Act.change f) fun _ => True := by
  apply Act.Keeps.change
  rintro s others ⟨l, intact, none, full⟩
  obtain ⟨s', done, kept⟩ := fine others s l intact none
  exact ⟨s', done, kept.inv none full⟩

theorem sane_run {α : Type} {f : Package → Option (α × Package)} {post : α → Prop}
    (fine : ∀ held s l, Intact held s l → l.apart = [] → ∃ a s', f s = some (a, s') ∧ Kept held s l s' ∧ post a) :
    Sane strict (Act.run f) post := by
  apply Act.Keeps.run
  rintro s others ⟨l, intact, none, full⟩
  obtain ⟨a, s', done, kept, good⟩ := fine others s l intact none
  exact ⟨a, s', done, kept.inv none full, good⟩

theorem sane_then {α β : Type} {x : Do α} {f : α → Do β} {post : β → Prop} (first : Sane strict x fun _ => True)
    (later : ∀ a, Sane strict (f a) post) : Sane strict (x >>= f) post :=
  first.bind fun a _ => later a

theorem sane_deleteAll (host : Nat) : Sane strict (Act.change fun s => s.deleteAllCallBacks host true) fun _ => True := by
  apply sane_change
  intro held s l intact none
  obtain ⟨s', l', done, intact', apart, -, -, full⟩ := intact.deleteAllCallBacks host true
  exact ⟨s', done, l', intact', apart, full (.inl rfl)⟩

theorem sane_hostList (f : List Nat → List Nat) :
    Sane strict (modify fun s => { s with hostList := f s.hostList }) fun _ => True := by
  apply sane_change
  intro held s l intact _
  exact ⟨_, rfl, l, intact.outside (fun _ => rfl) _ s.approxTime, rfl, id⟩

theorem sane_tossStuff (host : Nat) : Sane strict (tossStuff host) fun _ => True := by
  refine .bind (.pause _) fun r _ => .look fun s => .when fun _ => ?_
  refine .bind (sane_deleteAll host) fun _ _ => .bind (sane_host host _ fun _ => rfl) fun _ _ => ?_
  exact sane_hostList fun hosts => hosts.erase host

theorem sane_release (host : Nat) : Sane strict (release host) fun _ => True :=
  .look fun _ => .when fun _ => sane_tossStuff host

theorem sane_initCallBackState (host : Nat) : Sane strict (initCallBackState host) fun _ => True := by
  refine .look fun s => .ite (fun _ => sane_host host _ fun _ => rfl) fun _ => ?_
  refine .bind (sane_host host _ fun _ => rfl) fun _ _ => .bind (.pause _) fun r _ => ?_
  refine .bind (sane_host host _ fun _ => rfl) fun _ _ => ?_
  exact .ite (fun _ => sane_host host _ fun _ => rfl) fun _ => sane_host host _ fun _ => rfl

theorem sane_clearLockedHost (host : Nat) (holds : List Nat) : Sane strict (clearLockedHost host holds) fun _ => True := by
  refine .bind (sane_deleteAll host) fun _ _ => .bind (sane_initCallBackState host) fun _ _ => ?_
  exact .bind (.when fun _ => sane_release host) fun _ _ => .pure trivial

theorem sane_clearHostCallbacks (host : Nat) (locked : Bool) (holds : List Nat) :
    Sane strict (clearHostCallbacks host locked holds) fun _ => True := by
  refine .ite (fun _ => sane_clearLockedHost host holds) fun _ => .bind (.pause _) fun r _ => ?_
  refine .ite (fun _ => ?_) fun _ => sane_clearLockedHost host holds
  exact .bind (.when fun _ => sane_release host) fun _ _ => .pure trivial

theorem sane_releaseChoice (lih : Choice) : Sane strict (releaseChoice lih) fun _ => True := by
  unfold releaseChoice
  split
  · exact sane_release _
  · exact .pure trivial

theorem sane_longestInactive (first : Bool) (hostp : Option Nat) (holds hosts : List Nat) (lih : Choice) :
    Sane strict (longestInactive first hostp holds hosts lih) fun _ => True := by
  induction hosts generalizing lih with
  | nil => exact .pure trivial
  | cons host rest ih =>
    refine .look fun s => .ite (fun _ => ?_) fun _ => ?_
    · exact .bind (sane_releaseChoice lih) fun _ _ => ih _
    · exact .bind (.when fun _ => sane_release host) fun _ _ => ih _

theorem sane_clearOther (hp hostp : Nat) (held : Bool) (holds : List Nat) :
    Sane strict (clearOther hp hostp held holds) fun _ => True := by
  refine .ite (fun _ => ?_) fun _ => ?_
  · refine .bind (sane_clearHostCallbacks hp false holds) fun _ _ => ?_
    exact .bind (.when fun _ => sane_release hp) fun _ _ => .pure trivial
  · exact .bind (.when fun _ => sane_release hp) fun _ _ => .pure trivial

theorem sane_reclaim (hostp : Nat) (holds : List Nat) (n : Nat) (first : Bool) (hp1 : Option Nat) :
    Sane strict (reclaim hostp holds n first hp1) fun _ => True := by
  induction n generalizing first hp1 with
  | zero => exact .spin
  | succ n ih =>
    refine .look fun s => .bind (sane_longestInactive first hp1 holds s.hostList none) fun lih _ => ?_
    cases lih with
    | none => exact .ite (fun _ => ih _ _) fun _ => .pure trivial
    | some chosen =>
      refine .bind (sane_clearOther _ hostp _ holds) fun busy _ => ?_
      exact .ite (fun _ => ih _ _) fun _ => .pure trivial

theorem sane_getSomeSpace (hostp : Nat) (holds : List Nat) (tries : Nat) :
    Sane strict (getSomeSpace hostp holds tries) fun _ => True := by
  refine sane_then (sane_run ?_) fun found => .when fun _ => ?_
  · intro held s l intact none
    obtain ⟨found, s', done, kept⟩ := intact.cleanup
    exact ⟨found, s', done, kept, trivial⟩
  · refine .bind (sane_reclaim hostp holds tries true none) fun cleared _ => .when fun _ => ?_
    exact .bind (sane_clearHostCallbacks hostp true holds) fun _ _ => .pure trivial

variable {host tries : Nat} {holds : List Nat} {fid : AFSFid} {cba : List (Nat × Nat)} {parms : VCBParams}
  {deletefe : Bool}

theorem allocate_sound {get : Package → Nat × Package} {post : List Nat → Nat → Package → Prop} {n : Nat}
    (gets : ∀ s others, inv strict s others → get s = (0, s) ∨ ∃ block s', get s = (block, s') ∧ block ≠ 0 ∧ post others block s')
    {s : Package} {others : List Nat} (here : inv strict s others) :
    (allocate get host holds tries n s).Sound (inv strict) (allowed strict) post others := by
  induction n generalizing s others with
  | zero => trivial
  | succ n ih =>
    unfold allocate
    rw [Act.bind_apply, Act.run]
    rcases gets s others here with none | ⟨block, s', done, nonzero, good⟩
    · rw [none]
      exact (sane_getSomeSpace host holds tries s others here).bind fun others' _ s' both => ih both.1
    rw [done]
    change ((if block = 0 then _ else _ : Do Nat) s').Sound _ _ _ _
    rw [if_neg nonzero]
    exact good

theorem sane_addCallBack1 {thead : Nat} {type : Status}
    (fine : Queued type thead) : Sane strict (addCallBack1 host fid thead type holds tries) fun _ => True := by
  intro s others here
  have first : (allocate Package.getCB host holds tries tries s).Sound (inv strict) (allowed strict)
      (fun others cb s => inv strict s (cb :: others)) others := by
    refine allocate_sound ?_ here
    rintro s others ⟨l, intact, none, full⟩
    apply intact.getCB.imp_right
    rintro ⟨cb, s', l', done, nonzero, intact', apart, full'⟩
    exact ⟨cb, s', done, nonzero, l', intact', apart.trans none, fun ask => full' (full ask)⟩
  refine first.bind fun others cb s here => ?_
  have second : (allocate Package.getFE host holds tries tries s).Sound (inv strict) (allowed strict)
      (fun others fe s => ∃ l, Intact others s l ∧ l.apart = [fe] ∧ (strict → Full s l)) (cb :: others) := by
    refine allocate_sound ?_ here
    rintro s others ⟨l, intact, none, full⟩
    apply intact.getFE.imp_right
    rintro ⟨fe, s', l', done, nonzero, intact', apart, full'⟩
    exact ⟨fe, s', done, nonzero, l', intact', by rw [apart, none], fun ask => full' (full ask)⟩
  -- the callback stays with the thread while it looks for a file entry
  refine Turn.Sound.bind (@Turn.Sound.frame _ _ _ _ _ _ _ _ _ [cb] _ second) fun others fe s ready => ?_
  obtain ⟨l, intact, place, full⟩ := ready
  obtain ⟨time, s', l', done, intact', apart, full'⟩ := intact.addCallBack place fine
  change ((Act.run fun s => s.addCallBack host fid thead type cb fe) s).Sound _ _ _ _
  rw [Act.run_apply done]
  exact ⟨⟨l', intact', apart, fun ask => full' (full ask)⟩, trivial⟩

theorem sane_putBack (fine : ∀ c ∈ cba, c.2 ≤ 128) : Sane strict (putBack fid holds tries cba) fun _ => True := by
  induction cba with
  | nil => exact .pure trivial
  | cons c rest ih =>
    obtain ⟨hp, idx⟩ := c
    refine .bind (.when fun nonzero => ?_) fun _ _ => .bind (.pause _) fun _ _ =>
      ih fun c within => fine c (mem_cons_of_mem _ within)
    refine .bind (.pause _) fun _ _ => .bind (sane_host hp _ fun _ => rfl) fun _ _ => ?_
    have bound : idx ≤ 128 := fine (hp, idx) mem_cons_self
    refine .bind (sane_addCallBack1 (.inr (.inr (.inr ⟨?_, bound⟩)))) fun _ _ => .pure trivial
    exact Nat.one_le_iff_ne_zero.mpr nonzero

theorem sane_releaseAll (xhost : Option Nat) (cba : List (Nat × Nat)) : Sane strict (releaseAll xhost cba) fun _ => True := by
  induction cba with
  | nil => exact .pure trivial
  | cons c rest ih => exact .bind (.when fun _ => sane_release c.1) fun _ _ => ih

theorem sane_callHosts (fine : ∀ c ∈ cba, c.2 ≤ 128) : Sane strict (callHosts cba fid tries) fun _ => True := by
  refine .look fun s => .when fun _ => .bind (.pause _) fun r _ => sane_putBack ?_
  intro c within
  rw [mem_filterMap] at within
  obtain ⟨i, -, place⟩ := within
  exact fine c (List.mem_filter.mp (mem_of_getElem? place)).1

theorem sane_multiBreakCallBack {xhost : Option Nat}
    (fine : Remembered cba) : Sane strict (multiBreakCallBack cba fid xhost tries) fun _ => True := by
  refine .bind (sane_change fun held s l intact _ => ⟨s, if_pos fine.1, intact.kept⟩) fun _ _ => ?_
  have sorted : ∀ c ∈ cba.mergeSort (fun a b => decide (a.1 ≤ b.1)), c.2 ≤ 128 := by
    intro c within
    exact fine.2 c (List.mem_mergeSort.mp within)
  refine .bind (sane_callHosts sorted) fun _ _ => .bind (sane_releaseAll xhost _) fun _ _ => ?_
  exact .bind (.pause _) fun _ _ => .pure trivial

theorem Intact.collectFile {held : List Nat} {s : Package} {l : Lists} (intact : Intact held s l) (xhost : Nat)
    (fid : AFSFid) (flag : Bool) :
    ∃ cba s', s.collectFile xhost fid flag = some (cba, s') ∧ Kept held s l s' ∧ Remembered cba := by
  have nothing : Remembered [] := ⟨by decide, nofun⟩
  obtain ⟨fe, found, none | ⟨some', inside, -, -⟩⟩ := intact.findFE fid
  · refine ⟨[], s, ?_, intact.kept, nothing⟩
    simp only [Package.collectFile, found, none.1, Option.bind_eq_bind, Option.bind_some, true_or, if_true]
  simp only [Package.collectFile, found, Option.bind_eq_bind, Option.bind_some]
  split
  · exact ⟨[], s, rfl, intact.kept, nothing⟩
  · exact intact.collect (Rest.of_first intact inside) (intact.loose.filter_short _) nothing

theorem sane_breakCallBack (xhost : Nat) (fid : AFSFid) (flag : Bool) (tries n : Nat) :
    Sane strict (breakCallBack xhost fid flag tries n) fun _ => True := by
  induction n with
  | zero => exact .spin
  | succ n ih =>
    refine .bind (sane_run fun held s l intact _ => intact.collectFile xhost fid flag) fun cba fine => ?_
    exact .when fun _ => .bind (sane_multiBreakCallBack fine) fun _ _ => ih

def VCBParams.Fine (parms : VCBParams) : Prop := Remembered parms.cba ∧ parms.thead ≤ 128

theorem sane_callLater (fine : parms.Fine) : Sane strict (callLater host parms tries) fun r => r.2.Fine := by
  refine .bind (sane_change fun held s l intact _ => ⟨s, if_pos fine.1.1, intact.kept⟩) fun _ _ => ?_
  refine .ite (fun _ => ?_) fun room => .pure ⟨⟨?_, ?_⟩, fine.2⟩
  · refine .bind (sane_multiBreakCallBack fine.1) fun _ _ => .pure ⟨⟨?_, ?_⟩, fine.2⟩
    · exact (by decide : 1 ≤ maxCbHosts)
    · intro c within
      rw [List.mem_singleton.mp within]
      exact fine.2
  · rw [length_append, length_singleton]
    exact lt_of_le_of_ne fine.1.1 room
  · intro c within
    rcases List.mem_append.mp within with old | last
    · exact fine.1.2 c old
    · rw [List.mem_singleton.mp last]
      exact fine.2

theorem sane_deleteOfDown (host : Nat) (deletefe : Bool) : Sane strict (deleteOfDown host deletefe) fun _ => True := by
  intro s others here
  refine ⟨[], here, ?_⟩
  rintro r s' others' ⟨l, intact, none, full⟩ fine
  change ((Act.when (!(s'.host host).hostDeleted) _ : Do Unit) s').Sound _ _ _ _
  by_cases deleted : (s'.host host).hostDeleted = true
  · rw [Act.when, if_neg (by simp [deleted])]
    exact ⟨⟨l, intact, none, full⟩, trivial⟩
  rw [Act.when, if_pos (by simpa using deleted)]
  obtain ⟨s₁, l₁, done, intact₁, apart, -, -, full₁⟩ := intact.deleteAllCallBacks host deletefe
  rw [Act.bind_apply, Act.change_apply done]
  have there : inv strict s₁ others' := by
    refine ⟨l₁, intact₁, apart.trans none, fun ask => full₁ ?_ (full ask)⟩
    cases deletefe with
    | true => exact .inl rfl
    | false => exact .inr (intact.spared (fine ask (by simpa using deleted)))
  exact sane_host host (fun h => { h with resetDone := false }) (fun _ => rfl) s₁ others' there

theorem sane_multiBreakVolumeCallBack {isheld : Bool}
    (fine : parms.Fine) : Sane strict (multiBreakVolumeCallBack host isheld parms deletefe tries) fun r => r.2.Fine := by
  refine .look fun s => .ite (fun _ => .pure fine) fun _ => .ite (fun _ => ?_) fun _ => sane_callLater fine
  exact .bind (sane_deleteOfDown host deletefe) fun _ _ => .pure fine

theorem sane_enumerate {held hosts : List Nat}
    (fine : parms.Fine) : Sane strict (enumerate held deletefe tries hosts parms) VCBParams.Fine := by
  induction hosts generalizing parms with
  | nil => exact .pure fine
  | cons host rest ih =>
    refine .bind (sane_multiBreakVolumeCallBack fine) fun r fine' => .bind (.pause _) fun _ _ => ?_
    exact .bind (.when fun _ => sane_release host) fun _ _ => .bind (.pause _) fun _ _ => ih fine'

def Package.Broken.Fine (b : Package.Broken) : Prop := b.tthead ≤ 128

theorem sane_breakHosts {volume : Nat} {b : Package.Broken} (fine : b.Fine) :
    Sane strict (breakHosts volume b deletefe tries) fun _ => True := by
  refine .bind (.pause _) fun _ _ => .look fun s => .bind (.pause _) fun _ _ => ?_
  refine .bind (sane_enumerate ⟨⟨Nat.zero_le _, nofun⟩, fine⟩) fun parms fine' => ?_
  exact .when fun _ => sane_multiBreakCallBack fine'.1

-- the runs over the whole hash table are not to be unfolded
attribute [local irreducible] Package.breakTable Package.unchainLater

theorem sane_breakTable (volume : Nat) : Sane strict
    (Act.run fun s => Package.breakTable volume (List.range fehashSize) ⟨0, []⟩ s) Package.Broken.Fine := by
  refine sane_run ?_
  intro held s l intact _
  exact intact.breakTable (fun _ within => List.mem_range.mp within) (Nat.zero_le _)

theorem sane_breakVolumeCallBacks (volume tries : Nat) : Sane strict (breakVolumeCallBacks volume tries) fun _ => True := by
  apply Act.Keeps.bind (sane_breakTable volume)
  intro b fine
  exact .when fun _ => sane_breakHosts fine

theorem sane_unchainLater : Sane strict (Act.run Package.unchainLater) fun r => r.2.Fine := by
  refine sane_run ?_
  intro held s l intact none
  obtain ⟨v, b, s', done, kept, fine⟩ := intact.unchainLater none
  exact ⟨(v, b), s', done, kept, fine⟩

theorem sane_breakLaterCallBacks (tries : Nat) : Sane strict (breakLaterCallBacks tries) fun _ => True := by
  apply Act.Keeps.bind sane_unchainLater
  intro r fine
  exact .when fun _ => sane_breakHosts fine

theorem sane_deleteCallBack (host : Nat) (fid : AFSFid) : Sane strict (deleteCallBack host fid) fun _ => True :=
  .bind (.pause _) fun _ _ => sane_change fun _ _ _ intact _ => intact.deleteCallBack host fid

theorem Intact.takeFids {held : List Nat} {s : Package} {l : Lists} (intact : Intact held s l) (host : Nat) :
    ∃ fids s', s.takeFids host = some (fids, s') ∧ Kept held s l s' := by
  unfold Package.takeFids
  split
  · exact ⟨[], s, rfl, intact.kept⟩
  rename_i some'
  have ring := intact.loose.shape.hosts host
  cases split : l.hosted.filter fun c => s.CB.hhead c = host with
  | nil =>
    rw [split] at ring
    exact absurd ring some'
  | cons b rest =>
    rw [split] at ring
    have start : (s.host host).cblist = b := ring.head_eq
    rw [start]
    refine intact.collectDelayed (split.trans (nil_append _).symm) ?_
    have listed : (b :: rest).Subperm l.chained := by
      refine List.Nodup.subperm ring.nodup ?_
      intro c within
      rw [← split] at within
      exact (intact.hosted c).mp (List.mem_filter.mp within).1
    have bound := listed.length_le
    have total := intact.chained_length
    simp only [length_cons] at bound
    omega

theorem sane_breakDelayedLoop (host : Nat) (holds : List Nat) (n : Nat) :
    Sane strict (breakDelayedLoop host holds n) fun _ => True := by
  induction n with
  | zero => exact .spin
  | succ n ih =>
    refine .look fun s => .when fun _ => .bind (sane_host host _ fun _ => rfl) fun _ _ => ?_
    refine sane_then (sane_run ?_) fun fids => .when fun _ => .bind (.pause _) fun r _ => ?_
    · intro held s l intact _
      obtain ⟨fids, s', done, kept⟩ := intact.takeFids host
      exact ⟨fids, s', done, kept, trivial⟩
    · refine .ite (fun _ => ?_) fun _ => .when fun _ => ih
      refine .bind (sane_host host _ fun _ => rfl) fun _ _ => ?_
      exact .bind (sane_clearHostCallbacks host true holds) fun _ _ => .pure trivial

theorem sane_resetHost (host : Nat) : Sane strict (resetHost host) fun _ => True := by
  refine .bind (sane_host host _ fun _ => rfl) fun _ _ => .bind (.pause _) fun r _ => ?_
  refine .bind (sane_host host _ fun _ => rfl) fun _ _ => ?_
  exact .ite (fun _ => sane_host host _ fun _ => rfl) fun _ => sane_host host _ fun _ => rfl

theorem sane_breakDelayedCallBacks (host : Nat) (holds : List Nat) (tries : Nat) :
    Sane strict (breakDelayedCallBacks host holds tries) fun _ => True := by
  refine .look fun s => sane_then ?_ fun _ => .look fun s => ?_
  · exact .ite (fun _ => sane_resetHost host) fun _ => sane_breakDelayedLoop host holds tries
  · refine .bind (.when fun _ => sane_host host _ fun _ => rfl) fun _ _ => .look fun s => .pure trivial

end

end OpenAFS.Callback
