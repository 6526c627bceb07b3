import OpenAFS.Lib.Fallible
import OpenAFS.Ubik.Bookkeeping

namespace OpenAFS.Ubik

open Lib

def uNoEnt : Int := 5382
def bulkError : Int := 1
def eio : Int := 5

def hdrSize : Nat := 64

def tbufferSize : Nat := 1024

/-- A `struct ubik_hdr` on disk, with `UBIK_MAGIC`. -/
def hdrBytes (v : Label) : List UInt8 :=
  wordBytes 0x354545 ++ [0, 0] ++ [0, 64] ++ (wordBytes v.epoch ++ wordBytes v.counter)

/-- The parts of a server that a transfer changes: `ubik_dbase->version`, the transactions, the files of the database,
    and the file `.DB0.TMP`. -/
structure SendServer where
  version : Label
  books : TransServer := {}
  files : Int → List UInt8
  tmp : Option (List UInt8) := none

/-- How a `uphys_setlabel` goes: the file cannot be opened, or `write` gets so many bytes out. -/
abbrev Labelling := Option Nat

def uphysSetlabel (file : Int) (v : Label) (how : Labelling) (s : SendServer) : Int × SendServer :=
  match how with
  | none => (uNoEnt, s)
  | some written =>
    let bytes := (hdrBytes v).take written
    let s := { s with files := fun f => if f = file then pwrite (s.files f) 0 bytes else s.files f }
    (if bytes.length = (hdrBytes v).length then 0 else eio, s)

def labelOf (bytes : List UInt8) : Option Label :=
  let thdr := pread bytes 0 16
  if thdr.length = 16 then some ⟨bytesWord (pread thdr 8 4), bytesWord (pread thdr 12 4)⟩ else none

def uphysGetlabel (file : Int) (s : SendServer) : Option Label := labelOf (s.files file)

structure Sending where
  auth : Int
  /-- `uvote_GetSyncSite`, 0 where no one is known, and the primary address of the caller. -/
  syncSite : Nat
  otherHost : Nat
  /-- What is in `tversion.counter`, which is never set. -/
  counter : UInt32
  firstLabel : Labelling
  /-- The `errno` of `open`, 0 where it works; what `lseek` returns. -/
  opened : Int
  seeked : Int
  /-- What each `rx_Read` gives, and what each `write` returns. -/
  read : Nat → List UInt8
  write : Nat → Int
  closed : Int
  renamed : Int
  secondLabel : Labelling
  /-- The label of a call that has failed. -/
  lastLabel : Labelling

/-- How a call leaves the server, how often it has taken and dropped the database lock, and whether it has put the new
    file in the place of the old one. -/
structure Sent where
  code : Int
  server : SendServer
  held : Nat
  released : Nat
  installed : Bool

section Call

variable (env : Sending) (file length : Int) (avers : Label)

def tversion : Label := ⟨0, env.counter⟩

/-- The part of the call behind `failed:`; `hasDbase` says that `dbase` is not null. -/
def failed (hasDbase : Bool) (code : Int) (s : SendServer) : SendServer :=
  if code ≠ 0 then
    let s := { s with tmp := none }
    if hasDbase then (uphysSetlabel file (tversion env) env.lastLabel s).2 else s
  else s

/-- The loop over the contents: what is in `.DB0.TMP` then, or the code of the failure. -/
def receive : Nat → Nat → Int → Nat → List UInt8 → Except Int (List UInt8)
  | 0, _, _, _, tmp => .ok tmp
  | fuel + 1, pass, length, offset, tmp =>
    if 0 < length then
      let tlen : Int := if tbufferSize < length then tbufferSize else length
      let tbuffer := env.read pass
      if tbuffer.length ≠ tlen then .error bulkError
      else if env.write pass ≠ tlen then .error uIOError
      else receive fuel (pass + 1) (length - tlen) (offset + tlen.toNat) (pwrite tmp (hdrSize + offset) tbuffer)
    else .ok tmp

def sdiskSendFile (s : SendServer) : Sent :=
  if env.auth ≠ 0 then ⟨env.auth, failed env file false env.auth s, 0, 0, false⟩
  else if env.syncSite ≠ 0 ∧ env.syncSite ≠ env.otherHost then ⟨uSync, failed env file false uSync s, 0, 0, false⟩
  else
    let s := { s with books := s.books.urecoveryAbortAll }
    let (_, s) := uphysSetlabel file (tversion env) env.firstLabel s
    if env.opened ≠ 0 then ⟨env.opened, failed env file true env.opened s, 1, 0, false⟩
    else
      let s := { s with tmp := some [] }
      if env.seeked ≠ hdrSize then ⟨env.seeked, failed env file true env.seeked s, 1, 0, false⟩
      else
        let s := { s with version := tversion env }
        match receive env length.toNat 0 length 0 [] with
        | .error code => ⟨code, failed env file true code s, 1, 1, false⟩
        | .ok tmp =>
          let s := { s with tmp := some tmp }
          if env.closed ≠ 0 then ⟨env.closed, failed env file true env.closed s, 1, 0, false⟩
          else
            let (code, s) :=
              if env.renamed = 0 then
                let s := { s with files := fun f => if f = 0 then tmp else s.files f, tmp := none }
                uphysSetlabel file avers env.secondLabel s
              else (env.renamed, s)
            let s := { s with version := avers }
            ⟨code, failed env file true code s, 1, 1, env.renamed = 0⟩

end Call

/-- The lock is dropped as often as it is taken, and after a failure neither version is the new one unless the new file
is in place. -/
structure SendSafe (avers : Label) (sent : Sent) : Prop where
  lock : sent.released = sent.held
  version : sent.code ≠ 0 → sent.installed = true ∨ (sent.server.version ≠ avers ∧ uphysGetlabel 0 sent.server ≠ some avers)

def Sending.accepted (env : Sending) : Prop := env.auth = 0 ∧ (env.syncSite = 0 ∨ env.syncSite = env.otherHost)

/-- All the contents come through: every `rx_Read` and every `write` is as long as it should be. -/
def Sending.complete (env : Sending) (length : Int) : Prop :=
  ∀ pass : Nat, (tbufferSize * pass : Int) < length →
    (env.read pass).length = min (tbufferSize : Int) (length - tbufferSize * pass) ∧
      env.write pass = min (tbufferSize : Int) (length - tbufferSize * pass)

def Sending.labelled (env : Sending) : Nat := max (env.firstLabel.getD 0) (env.lastLabel.getD 0)

def transitFile (env : Sending) (file : Int) (s : SendServer) : List UInt8 :=
  if file = 0 then pwrite (s.files 0) 0 ((hdrBytes (tversion env)).take env.labelled) else s.files 0

/-- When a call is safe: it is refused and the server has another version; or the contents do not come through and
another label is on the old ones; or everything works up to the `rename`. -/
structure SendFine (env : Sending) (file length : Int) (avers : Label) (s : SendServer) : Prop where
  refused : ¬ env.accepted → s.version ≠ avers ∧ uphysGetlabel 0 s ≠ some avers
  opened : env.accepted → env.opened = 0 ∧ env.seeked = hdrSize
  broken : env.accepted → ¬ env.complete length → tversion env ≠ avers ∧ labelOf (transitFile env file s) ≠ some avers
  received : env.accepted → env.complete length → env.closed = 0 ∧ env.renamed = 0

variable {env : Sending} {file length : Int} {avers : Label} {s : SendServer}

theorem uphysGetlabel_failed_true {code : Int} (bad : code ≠ 0) : uphysGetlabel 0 (failed env file true code s) =
    uphysGetlabel 0 (uphysSetlabel file (tversion env) env.lastLabel s).2 := by
  rw [failed, if_pos bad]
  cases env.lastLabel <;> rfl

theorem failed_version (hasDbase : Bool) (code : Int) : (failed env file hasDbase code s).version = s.version := by
  unfold failed uphysSetlabel
  split
  · split
    · cases env.lastLabel <;> rfl
    · rfl
  · rfl

theorem receive_error {fuel pass offset : Nat} {length code : Int} {tmp : List UInt8}
    (broken : receive env fuel pass length offset tmp = .error code) : code ≠ 0 := by
  induction fuel generalizing pass length offset tmp with
  | zero => cases broken
  | succ fuel ih =>
    unfold receive at broken
    split at broken
    · dsimp only at broken
      generalize (if (tbufferSize : Int) < length then (tbufferSize : Int) else length) = tlen at broken
      split at broken
      · cases broken
        decide
      split at broken
      · cases broken
        decide
      · exact ih broken
    · cases broken

theorem receive_ok_iff {fuel pass offset : Nat} {length total : Int} {tmp : List UInt8} (enough : length ≤ fuel)
    (here : length = total - tbufferSize * pass ∨ length ≤ 0 ∧ total ≤ tbufferSize * pass) :
    (∃ tmp', receive env fuel pass length offset tmp = .ok tmp') ↔ ∀ k : Nat, pass ≤ k → (tbufferSize * k : Int) < total →
        (env.read k).length = min (tbufferSize : Int) (total - tbufferSize * k) ∧
          env.write k = min (tbufferSize : Int) (total - tbufferSize * k) := by
  induction fuel generalizing pass length offset tmp with
  | zero =>
    refine iff_of_true ⟨tmp, rfl⟩ fun k later inside => ?_
    unfold tbufferSize at here inside
    omega
  | succ fuel ih =>
    unfold receive
    split
    · rename_i more
      have tlen : (if (tbufferSize : Int) < length then (tbufferSize : Int) else length) =
          min (tbufferSize : Int) (total - tbufferSize * pass) := by
        split <;> omega
      have inside : (tbufferSize * pass : Int) < total := by omega
      dsimp only
      rw [tlen]
      split
      · rename_i short
        exact iff_of_false (fun ⟨_, ok⟩ => by cases ok) fun all => short (all pass (Nat.le_refl _) inside).1
      rename_i full
      split
      · rename_i short
        exact iff_of_false (fun ⟨_, ok⟩ => by cases ok) fun all => short (all pass (Nat.le_refl _) inside).2
      rename_i written
      have next := @ih (pass + 1) (offset + (min (tbufferSize : Int) (total - tbufferSize * pass)).toNat)
        (length - min (tbufferSize : Int) (total - tbufferSize * pass))
        (pwrite tmp (hdrSize + offset) (env.read pass)) (by unfold tbufferSize at *; omega)
        (by unfold tbufferSize at *; omega)
      rw [next]
      constructor
      · intro rest k later inside
        rcases Nat.eq_or_lt_of_le later with rfl | beyond
        · exact ⟨not_not.mp full, not_not.mp written⟩
        · exact rest k beyond inside
      · exact fun all k later => all k (Nat.le_of_succ_le later)
    · refine iff_of_true ⟨tmp, rfl⟩ fun k later inside => ?_
      unfold tbufferSize at here inside
      omega

theorem receive_complete_iff : (∃ tmp, receive env length.toNat 0 length 0 [] = .ok tmp) ↔ env.complete length := by
  rw [@receive_ok_iff env length.toNat 0 0 length length [] (Int.self_le_toNat length) (.inl (Int.sub_zero length).symm)]
  exact ⟨fun all k => all k (Nat.zero_le k), fun all k _ => all k⟩

theorem sdiskSendFile_refused (refused : ¬ env.accepted) : ∃ code ≠ 0, ∃ server : SendServer,
    sdiskSendFile env file length avers s = ⟨code, server, 0, 0, false⟩ ∧ server.version = s.version ∧
      server.files = s.files := by
  have kept : ∀ code, (failed env file false code s).files = s.files := by
    intro code
    unfold failed
    split <;> rfl
  unfold sdiskSendFile
  by_cases auth : env.auth ≠ 0
  · rw [if_pos auth]
    exact ⟨env.auth, auth, _, rfl, failed_version .., kept _⟩
  rw [if_neg auth]
  have wrong : env.syncSite ≠ 0 ∧ env.syncSite ≠ env.otherHost := by
    rw [← not_or]
    exact fun right => refused ⟨not_not.mp auth, right⟩
  rw [if_pos wrong]
  exact ⟨uSync, by decide, _, rfl, failed_version .., kept _⟩

def inTransit (env : Sending) (file : Int) (tmp : List UInt8) (s : SendServer) : SendServer :=
  { (uphysSetlabel file (tversion env) env.firstLabel { s with books := s.books.urecoveryAbortAll }).2 with
    version := tversion env, tmp := some tmp }

theorem sdiskSendFile_accepted (accepted : env.accepted) (opened : env.opened = 0) (seeked : env.seeked = hdrSize) :
    sdiskSendFile env file length avers s = match receive env length.toNat 0 length 0 [] with
      | .error code => ⟨code, failed env file true code (inTransit env file [] s), 1, 1, false⟩
      | .ok tmp =>
        let s := inTransit env file tmp s
        if env.closed ≠ 0 then ⟨env.closed, failed env file true env.closed s, 1, 0, false⟩
        else
          let (code, s) :=
            if env.renamed = 0 then
              let s := { s with files := fun f => if f = 0 then tmp else s.files f, tmp := none }
              uphysSetlabel file avers env.secondLabel s
            else (env.renamed, s)
          let s := { s with version := avers }
          ⟨code, failed env file true code s, 1, 1, env.renamed = 0⟩ := by
  have right : ¬ (env.syncSite ≠ 0 ∧ env.syncSite ≠ env.otherHost) := by
    rw [← not_or]
    exact not_not_intro accepted.2
  rw [sdiskSendFile, if_neg (not_not_intro accepted.1), if_neg right]
  dsimp only
  rw [if_neg (not_not_intro opened), if_neg (not_not_intro seeked)]
  rfl

theorem sdiskSendFile_unopened (accepted : env.accepted) (bad : ¬ (env.opened = 0 ∧ env.seeked = hdrSize)) :
    ∃ code server, sdiskSendFile env file length avers s = ⟨code, server, 1, 0, false⟩ := by
  have right : ¬ (env.syncSite ≠ 0 ∧ env.syncSite ≠ env.otherHost) := by
    rw [← not_or]
    exact not_not_intro accepted.2
  rw [sdiskSendFile, if_neg (not_not_intro accepted.1), if_neg right]
  dsimp only
  split
  · exact ⟨_, _, rfl⟩
  rename_i opened
  have unseeked : env.seeked ≠ hdrSize := fun seeked => bad ⟨not_not.mp opened, seeked⟩
  rw [if_pos unseeked]
  exact ⟨_, _, rfl⟩

theorem pwrite_take_take (bytes header : List UInt8) (m n : Nat) :
    pwrite (pwrite bytes 0 (header.take m)) 0 (header.take n) = pwrite bytes 0 (header.take (max m n)) := by
  apply ext_byteAt
  · simp only [length_pwrite, List.take_eq_nil_iff, List.length_take]
    grind
  · intro p
    simp only [byteAt_pwrite, byteAt_take, List.length_take]
    grind

theorem uphysGetlabel_inTransit (tmp : List UInt8) : uphysGetlabel 0
    (uphysSetlabel file (tversion env) env.lastLabel (inTransit env file tmp s)).2 = labelOf (transitFile env file s) := by
  unfold uphysGetlabel
  congr 1
  have whole : ∀ how : Labelling, ∀ server : SendServer, (uphysSetlabel file (tversion env) how server).2.files 0 =
      if file = 0 then pwrite (server.files 0) 0 ((hdrBytes (tversion env)).take (how.getD 0)) else server.files 0 := by
    intro how server
    unfold uphysSetlabel
    cases how with
    | none => exact (ite_self _).symm
    | some written =>
      dsimp only
      by_cases same : file = 0
      · rw [if_pos same.symm, if_pos same]
        rfl
      · rw [if_neg (Ne.symm same), if_neg same]
  rw [whole]
  unfold inTransit transitFile
  rw [whole]
  by_cases same : file = 0
  · rw [if_pos same, if_pos same, if_pos same, pwrite_take_take]
    rfl
  · rw [if_neg same, if_neg same, if_neg same]

/-- `SDISK_SendFile` is safe where these hold, and nowhere else. -/
theorem sdiskSendFile_safe_iff : SendSafe avers (sdiskSendFile env file length avers s) ↔ SendFine env file length avers s := by
  by_cases accepted : env.accepted
  · by_cases opened : env.opened = 0 ∧ env.seeked = hdrSize
    · rw [sdiskSendFile_accepted accepted opened.1 opened.2]
      cases received : receive env length.toNat 0 length 0 [] with
      | error code =>
        have bad := receive_error received
        have incomplete : ¬ env.complete length := by
          rw [← receive_complete_iff, received]
          rintro ⟨_, ok⟩
          cases ok
        have version : (failed env file true code (inTransit env file [] s)).version = tversion env := failed_version ..
        have label : uphysGetlabel 0 (failed env file true code (inTransit env file [] s)) = labelOf (transitFile env file s) :=
          (uphysGetlabel_failed_true bad).trans (uphysGetlabel_inTransit [])
        constructor
        · intro safe
          have apart := (safe.version bad).resolve_left Bool.false_ne_true
          dsimp only at apart
          rw [version, label] at apart
          exact ⟨fun refused => absurd accepted refused, fun _ => opened, fun _ _ => apart,
            fun _ whole => absurd whole incomplete⟩
        · intro fine
          refine ⟨rfl, fun _ => .inr ?_⟩
          dsimp only
          rw [version, label]
          exact fine.broken accepted incomplete
      | ok tmp =>
        have complete : env.complete length := receive_complete_iff.mp ⟨tmp, received⟩
        dsimp only
        by_cases done : env.closed = 0 ∧ env.renamed = 0
        · rw [if_neg (not_not_intro done.1)]
          constructor
          · intro _
            exact ⟨fun refused => absurd accepted refused, fun _ => opened,
              fun _ incomplete => absurd complete incomplete, fun _ _ => done⟩
          · intro _
            exact ⟨rfl, fun _ => .inl (decide_eq_true done.2)⟩
        refine iff_of_false (fun safe => ?_) fun fine => done (fine.received accepted complete)
        by_cases closed : env.closed = 0
        · rw [if_neg (not_not_intro closed)] at safe
          have unnamed : env.renamed ≠ 0 := fun renamed => done ⟨closed, renamed⟩
          have apart := safe.version (by dsimp only; rw [if_neg unnamed]; exact unnamed)
          rcases apart with installed | ⟨other, -⟩
          · exact unnamed (of_decide_eq_true installed)
          · exact other (failed_version ..)
        · rw [if_pos closed] at safe
          exact Nat.zero_ne_one safe.lock
    · refine iff_of_false (fun safe => ?_) fun fine => opened (fine.opened accepted)
      obtain ⟨code, server, same⟩ := @sdiskSendFile_unopened env file length avers s accepted opened
      rw [same] at safe
      exact Nat.zero_ne_one safe.lock
  · obtain ⟨code, bad, server, same, version, files⟩ := @sdiskSendFile_refused env file length avers s accepted
    have label : uphysGetlabel 0 server = uphysGetlabel 0 s := by rw [uphysGetlabel, files, uphysGetlabel]
    rw [same]
    constructor
    · intro safe
      have apart := (safe.version bad).resolve_left Bool.false_ne_true
      dsimp only at apart
      rw [version, label] at apart
      exact ⟨fun _ => apart, fun yes => absurd yes accepted, fun yes => absurd yes accepted, fun yes => absurd yes accepted⟩
    intro fine
    refine ⟨rfl, fun _ => .inr ?_⟩
    dsimp only
    rw [version, label]
    exact fine.refused accepted

def unopenable : Sending where
  auth := 0
  syncSite := 0
  otherHost := 1
  counter := 0
  firstLabel := some 16
  opened := 28
  seeked := hdrSize
  read _ := []
  write _ := 0
  closed := 0
  renamed := 0
  secondLabel := some 16
  lastLabel := some 16

theorem sdiskSendFile_unopenable : ¬ ∀ env file length avers s, SendSafe avers (sdiskSendFile env file length avers s) := by
  intro safe
  obtain ⟨code, server, same⟩ := @sdiskSendFile_unopened unopenable 0 0 ⟨5, 1⟩ { version := ⟨4, 1⟩, files := fun _ => [] }
    ⟨rfl, .inl rfl⟩ (by decide)
  have here := safe unopenable 0 0 ⟨5, 1⟩ { version := ⟨4, 1⟩, files := fun _ => [] }
  rw [same] at here
  exact Nat.zero_ne_one here.lock

end OpenAFS.Ubik
