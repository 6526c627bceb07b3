import OpenAFS.Vlserver.Transactions

namespace OpenAFS.Vlserver

open Function (update update_self update_of_ne)
open Lib

def SameButServers (db : Vldb) (e : NvlEntry) (db' : Vldb) (e' : NvlEntry) : Prop :=
  (∃ hosts, db' = { db with hostAddress := hosts }) ∧ ∃ number partition flags, e' = { e with
      serverNumber := number
      serverPartition := partition
      serverFlags := flags }

namespace SameButServers

variable {db db' db'' : Vldb} {e e' e'' : NvlEntry}

theorem refl (db : Vldb) (e : NvlEntry) : SameButServers db e db e := ⟨⟨_, rfl⟩, _, _, _, rfl⟩

theorem trans (first : SameButServers db e db' e') (second : SameButServers db' e' db'' e'') : SameButServers db e db'' e'' := by
  obtain ⟨⟨hosts, rfl⟩, _, _, _, rfl⟩ := first
  obtain ⟨⟨hosts', rfl⟩, _, _, _, rfl⟩ := second
  exact ⟨⟨hosts', rfl⟩, _, _, _, rfl⟩

theorem next (same : SameButServers db e db' e') (k : Thread) : e'.next k = e.next k := by
  obtain ⟨-, _, _, _, rfl⟩ := same
  cases k <;> rfl

end SameButServers

theorem ipAddrToRelAddr_hosts {db db' : Vldb} {ipaddr : UInt32} {i : Nat}
    (done : db.ipAddrToRelAddr ipaddr = some (db', i)) : ∃ hosts, db' = { db with hostAddress := hosts } := by
  unfold Vldb.ipAddrToRelAddr at done
  split at done
  · obtain ⟨-, same⟩ := Option.ite_none_right_eq_some.mp done
    cases same
    exact ⟨_, rfl⟩
  · obtain ⟨j, -, same⟩ := Option.map_eq_some_iff.mp done
    cases same
    exact ⟨_, rfl⟩

theorem relAddr_hosts (ipaddr : UInt32) (db : Vldb) :
    ∃ hosts, (Repsite.relAddr ipaddr db).1 = { db with hostAddress := hosts } := by
  unfold Repsite.relAddr
  split
  · rename_i found
    exact ipAddrToRelAddr_hosts found
  · exact ⟨_, rfl⟩

variable {v : VldbEntry}

theorem putServers_same {places : List Nat} {db db' : Vldb} {e e' : NvlEntry}
    (done : db.putServers v places e = .ok (db', e')) : SameButServers db e db' e' := by
  induction places generalizing db e with
  | nil =>
    cases done
    exact .refl ..
  | cons i rest ih =>
    rw [Vldb.putServers] at done
    split at done
    · cases done
    · rename_i found
      obtain ⟨hosts, rfl⟩ := ipAddrToRelAddr_hosts found
      refine .trans ⟨⟨hosts, rfl⟩, _, _, _, rfl⟩ (ih done)

variable {maxServers : Nat}

theorem vldbentryToVlentry_ok {db db' : Vldb} {e e' : NvlEntry}
    (done : db.vldbentryToVlentry maxServers v e = .ok (db', e')) :
    SameButServers db { e with name := v.name, volumeId := v.volumeId, cloneId := v.cloneId, flags := v.flags } db' e' := by
  unfold Vldb.vldbentryToVlentry at done
  cases servers : db.putServers v (List.range v.nServers.toNat) { e with name := v.name } with
  | error _ =>
    rw [servers] at done
    cases done
  | ok put =>
    obtain ⟨db₁, e₁⟩ := put
    obtain ⟨⟨hosts, rfl⟩, _, _, _, rfl⟩ := putServers_same servers
    rw [servers] at done
    cases done
    exact ⟨⟨hosts, rfl⟩, _, _, _, rfl⟩

namespace Repsite

variable {r : Repsite} {db db' : Vldb} {e e' : NvlEntry}

theorem target_hosts {j : Nat} (done : r.target db e = .ok (db', j)) : ∃ hosts, db' = { db with hostAddress := hosts } := by
  unfold target at done
  have hosts := relAddr_hosts r.targetServer db
  generalize relAddr r.targetServer db = found at done hosts
  simp only at done
  split at done
  · cases done
    exact hosts
  · cases done

theorem repsiteCompress_same (db : Vldb) (left offset : Nat) (e : NvlEntry) :
    SameButServers db e db (repsiteCompress left offset e) := by
  induction left generalizing offset e with
  | zero => exact ⟨⟨_, rfl⟩, _, _, _, rfl⟩
  | succ left ih =>
    rw [repsiteCompress]
    split
    · exact ⟨⟨_, rfl⟩, _, _, _, rfl⟩
    · exact .trans ⟨⟨_, rfl⟩, _, _, _, rfl⟩ (ih ..)

theorem delete_same (done : r.delete db e = .ok (db', e')) : SameButServers db e db' e' := by
  obtain ⟨⟨middle, j⟩, found, same⟩ := except_bind_eq_ok.mp done
  cases same
  obtain ⟨hosts, rfl⟩ := target_hosts found
  exact .trans ⟨⟨hosts, rfl⟩, _, _, _, rfl⟩ (repsiteCompress_same ..)

theorem add_same (done : r.add db e = .ok (db', e')) : SameButServers db e db' e' := by
  obtain ⟨-, done⟩ := ensure_then.mp done
  obtain ⟨hosts, same⟩ := relAddr_hosts r.newServer db
  obtain ⟨-, done⟩ := ensure_then.mp done
  split at done
  · cases done
  split at done
  · cases done
  · obtain ⟨-, done⟩ := ensure_then.mp done
    cases done
    exact ⟨⟨hosts, same⟩, _, _, _, rfl⟩

theorem modServ_same (done : r.modServ db e = .ok (db', e')) : SameButServers db e db' e' := by
  obtain ⟨⟨middle, j⟩, found, same⟩ := except_bind_eq_ok.mp done
  cases same
  obtain ⟨hosts, rfl⟩ := target_hosts found
  obtain ⟨hosts', same⟩ := relAddr_hosts r.newServer { db with hostAddress := hosts }
  exact ⟨⟨hosts', same⟩, _, _, _, rfl⟩

theorem modPart_same (done : r.modPart db e = .ok (db', e')) : SameButServers db e db' e' := by
  obtain ⟨-, done⟩ := ensure_then.mp done
  obtain ⟨⟨middle, j⟩, found, same⟩ := except_bind_eq_ok.mp done
  cases same
  exact ⟨target_hosts found, _, _, _, rfl⟩

theorem modFlag_same (done : r.modFlag db e = .ok (db', e')) : SameButServers db e db' e' := by
  obtain ⟨⟨middle, j⟩, found, done⟩ := except_bind_eq_ok.mp done
  obtain ⟨-, same⟩ := ensure_then.mp done
  cases same
  exact ⟨target_hosts found, _, _, _, rfl⟩

theorem onBit_same {bit : UInt32} {change : Vldb → NvlEntry → Except VlError (Vldb × NvlEntry)}
    (all : ∀ {db e db' e'}, change db e = .ok (db', e') → SameButServers db e db' e')
    (done : r.onBit bit change db e = .ok (db', e')) : SameButServers db e db' e' := by
  unfold onBit at done
  split at done
  · exact all done
  · cases done
    exact .refl ..

theorem change_same (done : r.change db e = .ok (db', e')) : SameButServers db e db' e' := by
  obtain ⟨-, done⟩ := ensure_then.mp done
  obtain ⟨⟨db₁, e₁⟩, first, done⟩ := except_bind_eq_ok.mp done
  obtain ⟨⟨db₂, e₂⟩, second, done⟩ := except_bind_eq_ok.mp done
  obtain ⟨⟨db₃, e₃⟩, third, done⟩ := except_bind_eq_ok.mp done
  obtain ⟨⟨db₄, e₄⟩, fourth, done⟩ := except_bind_eq_ok.mp done
  have fst := onBit_same delete_same first
  have snd := onBit_same add_same second
  have thd := onBit_same modServ_same third
  have frt := onBit_same modPart_same fourth
  exact fst.trans (snd.trans (thd.trans (frt.trans (onBit_same modFlag_same done))))

end Repsite

theorem updateRepsites_same {u : VldbUpdateEntry} {places : List Nat} {db db' : Vldb} {e e' : NvlEntry}
    (done : db.updateRepsites u places e = .ok (db', e')) : SameButServers db e db' e' := by
  induction places generalizing db e with
  | nil =>
    cases done
    exact .refl ..
  | cons i rest ih =>
    obtain ⟨⟨db₁, e₁⟩, first, later⟩ := except_bind_eq_ok.mp done
    exact (Repsite.change_same first).trans (ih later)

theorem Work.servers {begun db db' : Vldb} {live free : List Nat} {b : Nat} {hashed : Thread → Prop} {e e' : NvlEntry}
    (work : Work begun live free b hashed db e) (same : SameButServers db e db' e') :
    Work begun live free b hashed db' e' := by
  have next := same.next
  obtain ⟨⟨hosts, rfl⟩, _, _, _, rfl⟩ := same
  exact (work.setHosts hosts).setEntry next (fun _ => rfl) fun _ _ => rfl

variable {t : VolType}

namespace Work

variable {begun db db' : Vldb} {live free : List Nat} {b : Nat} {hashed hashed' : Thread → Prop} {e e' : NvlEntry}

theorem hashed_congr (work : Work begun live free b hashed db e) (same : ∀ k, hashed' k ↔ hashed k) :
    Work begun live free b hashed' db e := by
  have equal : hashed' = hashed := funext fun k => propext (same k)
  rwa [equal]

theorem setName (work : Work begun live free b hashed db e) (off : ¬ hashed .name) (name : List UInt8) :
    Work begun live free b hashed db { e with name := name } :=
  work.setEntry (fun k => by cases k <;> rfl) (fun known => absurd known off) fun _ _ => rfl

theorem setId (work : Work begun live free b hashed db e) (off : ¬ hashed (.id t)) (id : UInt32) :
    Work begun live free b hashed db { e with volumeId := update e.volumeId t id } := by
  refine work.setEntry (fun k => by cases k <;> rfl) (fun _ => rfl) fun t' known => ?_
  have other : t' ≠ t := by
    rintro rfl
    exact off known
  exact update_of_ne other ..

variable (work : Work begun live free b e.hashed db e)
include work

theorem updateName {u : VldbUpdateEntry}
    (done : db.updateName u b e = .ok (db', e')) :
    Work begun live free b e'.hashed db' e' ∧ e'.data = { e with name := u.name }.data := by
  obtain ⟨-, done⟩ := ensure_then.mp done
  obtain ⟨⟨db₁, e₁⟩, out, done⟩ := except_bind_eq_ok.mp done
  obtain ⟨data, unhashed⟩ := work.unhashVolname trivial out
  obtain ⟨data', again⟩ := (unhashed.setName (by simp) u.name).hashVolname (by simp) (Except.ok.inj done)
  have same : e'.data = { e with name := u.name }.data := by
    calc e'.data = { e₁.data with name := u.name } := data'
      _ = { e.data with name := u.name } := by rw [data]
  refine ⟨again.hashed_congr fun k => ?_, same⟩
  rw [hashed_of_data same]
  cases k <;> simp [NvlEntry.hashed]

theorem updateNameHash (done : db.updateNameHash b e = .ok (db', e')) :
    Work begun live free b e'.hashed db' e' ∧ e'.data = e.data := by
  obtain ⟨⟨db₁, e₁⟩, out, done⟩ := except_bind_eq_ok.mp done
  obtain ⟨db₂, e₂, found⟩ := work.unhashVolname_ok trivial
  rw [found] at out
  obtain ⟨data, unhashed⟩ := work.unhashVolname trivial (found.trans out)
  obtain ⟨data', again⟩ := unhashed.hashVolname (by simp) (Except.ok.inj done)
  have same := data'.trans data
  refine ⟨again.hashed_congr fun k => ?_, same⟩
  rw [hashed_of_data same]
  cases k <;> simp [NvlEntry.hashed]

theorem updateId {id : UInt32} (nonzero : id ≠ 0)
    (other : id ≠ leastInt) (done : db.updateId t id b e = .ok (db', e')) :
    Work begun live free b e'.hashed db' e' ∧ e'.data = { e with volumeId := update e.volumeId t id }.data := by
  obtain ⟨⟨db₁, e₁⟩, out, done⟩ := except_bind_eq_ok.mp done
  obtain ⟨db₂, e₂, found⟩ := work.unhashVolid_ok Iff.rfl
  rw [found] at out
  obtain ⟨data, unhashed⟩ := work.unhashVolid Iff.rfl (found.trans out)
  have plain : update e₁.volumeId t id t ≠ leastInt := by rwa [update_self]
  obtain ⟨data', again⟩ := (unhashed.setId (by simp) id).hashVolid (by simp) plain done
  have same : e'.data = { e with volumeId := update e.volumeId t id }.data := by
    calc e'.data = { e₁.data with volumeId := update e₁.data.volumeId t id } := data'
      _ = { e.data with volumeId := update e.data.volumeId t id } := by rw [data]
  refine ⟨again.hashed_congr fun k => ?_, same⟩
  rw [hashed_of_data same]
  cases k with
  | name => simp [NvlEntry.hashed]
  | id t' =>
    by_cases here : t' = t
    · subst here
      simpa [NvlEntry.hashed] using nonzero
    · simp [NvlEntry.hashed, here]

end Work

namespace VldbUpdateEntry

variable (u : VldbUpdateEntry)

def nameOf (e : NvlEntry) : List UInt8 := if u.has volumeName then u.name else e.name

def idOf (e : NvlEntry) (t : VolType) : UInt32 := if u.has (idBit t) then u.newId t else e.volumeId t

def flagsOf (e : NvlEntry) : UInt32 := if u.has flagsBit then u.flags else e.flags

/-- The new ids are neither 0 nor the one whose `abs` is negative. -/
def PlainIds : Prop := ∀ t, u.has (idBit t) → u.newId t ≠ 0 ∧ u.newId t ≠ leastInt

end VldbUpdateEntry

theorem Work.updateMasked {begun db db' : Vldb} {live free : List Nat} {b : Nat} {e e' : NvlEntry} {u : VldbUpdateEntry}
    (work : Work begun live free b e.hashed db e) (plain : u.PlainIds) (t : VolType)
    (done : (if u.has (VldbUpdateEntry.idBit t) then db.updateId t (u.newId t) b e else .ok (db, e)) = .ok (db', e')) :
    Work begun live free b e'.hashed db' e' ∧ e'.data = { e with volumeId := update e.volumeId t (u.idOf e t) }.data := by
  split at done
  · rename_i masked
    rw [VldbUpdateEntry.idOf, if_pos masked]
    exact work.updateId (plain t masked).1 (plain t masked).2 done
  rename_i kept
  cases done
  rw [VldbUpdateEntry.idOf, if_neg kept, Function.update_eq_self]
  exact ⟨work, rfl⟩

theorem Work.getVldbupdateentry {begun db db' : Vldb} {live free : List Nat} {b : Nat} {e e' : NvlEntry}
    {u : VldbUpdateEntry} (work : Work begun live free b e.hashed db e) (plain : u.PlainIds)
    (done : db.getVldbupdateentry u b e = .ok (db', e')) :
    Work begun live free b e'.hashed db' e' ∧ e'.name = u.nameOf e ∧ e'.volumeId = u.idOf e ∧ e'.flags = u.flagsOf e ∧
      (u.has VldbUpdateEntry.volumeName → invalidVolname u.name = false) := by
  obtain ⟨⟨db₁, e₁⟩, named, done⟩ := optional_then.mp done
  obtain ⟨⟨db₂, e₂⟩, rehashed, done⟩ := optional_then.mp done
  obtain ⟨⟨db₃, e₃⟩, readWrite, done⟩ := optional_then.mp done
  obtain ⟨⟨db₄, e₄⟩, readOnly, done⟩ := optional_then.mp done
  obtain ⟨⟨db₅, e₅⟩, back, done⟩ := optional_then.mp done
  have first : Work begun live free b e₁.hashed db₁ e₁ ∧ e₁.data = { e with name := u.nameOf e }.data := by
    split at named
    · rename_i masked
      rw [VldbUpdateEntry.nameOf, if_pos masked]
      exact work.updateName named
    rename_i kept
    cases named
    rw [VldbUpdateEntry.nameOf, if_neg kept]
    exact ⟨work, rfl⟩
  have second : Work begun live free b e₂.hashed db₂ e₂ ∧ e₂.data = e₁.data := by
    split at rehashed
    · exact first.1.updateNameHash rehashed
    · cases rehashed
      exact ⟨first.1, rfl⟩
  have flagged : Work begun live free b (u.setFlags e₂).hashed db₂ (u.setFlags e₂) :=
    second.1.setEntry (fun k => by cases k <;> rfl) (fun _ => rfl) fun _ _ => rfl
  have third := flagged.updateMasked plain .rw readWrite
  have fourth := third.1.updateMasked plain .ro readOnly
  have fifth := fourth.1.updateMasked plain .back back
  have last : Work begun live free b e'.hashed db' e' ∧ SameButServers db₅ e₅ db' e' := by
    split at done
    · obtain ⟨-, done⟩ := ensure_then.mp done
      have same := updateRepsites_same done
      refine ⟨(fifth.1.servers same).hashed_congr ?_, same⟩
      obtain ⟨-, _, _, _, rfl⟩ := same
      exact fun _ => Iff.rfl
    · cases done
      exact ⟨fifth.1, .refl ..⟩
  obtain ⟨done, -, _, _, _, rfl⟩ := last
  refine ⟨done, ?_, ?_, ?_, ?_⟩
  · calc e₅.name = e₄.name := (name_of_data fifth.2 :)
      _ = e₃.name := (name_of_data fourth.2 :)
      _ = e₂.name := (name_of_data third.2 :)
      _ = e₁.name := (name_of_data second.2 :)
      _ = u.nameOf e := (name_of_data first.2 :)
  · have ids₂ : e₂.volumeId = e.volumeId := (volumeId_of_data second.2).trans (volumeId_of_data first.2 :)
    have ids₃ : e₃.volumeId = update e₂.volumeId .rw (u.idOf e₂ .rw) := (volumeId_of_data third.2 :)
    have ids₄ : e₄.volumeId = update e₃.volumeId .ro (u.idOf e₃ .ro) := (volumeId_of_data fourth.2 :)
    have ids₅ : e₅.volumeId = update e₄.volumeId .back (u.idOf e₄ .back) := (volumeId_of_data fifth.2 :)
    show e₅.volumeId = u.idOf e
    funext t
    rw [ids₅]
    cases t <;> simp [VldbUpdateEntry.idOf, ids₄, ids₃, ids₂]
  · have old : e₂.flags = e.flags := (flags_of_data second.2).trans (flags_of_data first.2 :)
    calc e₅.flags = e₄.flags := (flags_of_data fifth.2 :)
      _ = e₃.flags := (flags_of_data fourth.2 :)
      _ = (u.setFlags e₂).flags := (flags_of_data third.2 :)
      _ = u.flagsOf e := by rw [VldbUpdateEntry.setFlags, VldbUpdateEntry.flagsOf, old]
  · intro masked
    rw [if_pos masked] at named
    exact (ensure_then.mp named).1

theorem idHash_valid (t : VolType) (volid : UInt32) : ∃ k : Thread, k.valid (hashSize * (t.index + 1) + idHash volid) := by
  by_cases least : volid = leastInt
  · subst least
    cases t with
    | rw => exact ⟨.name, by constructor <;> decide⟩
    | ro => exact ⟨.id .rw, by constructor <;> decide⟩
    | back => exact ⟨.id .ro, by constructor <;> decide⟩
  · exact ⟨_, valid_idChain t least⟩

namespace Inv

variable {db : Vldb} {live free : List Nat} (inv : Inv db live free)
include inv

theorem next_live (k : Thread) {c : Nat} (inside : c ∈ live) : (db.block c).next k = 0 ∨ (db.block c).next k ∈ live := by
  obtain ⟨on, threaded, members⟩ := inv.threads
  by_cases here : c ∈ on k
  · have linked := threaded.chains k _ (threaded.ranges k c here)
    have bucket : c ∈ (on k).filter fun d => (db.block d).chain k = (db.block c).chain k := by
      rw [List.mem_filter, decide_eq_true_eq]
      exact ⟨here, rfl⟩
    refine (linked.next_mem bucket).imp id fun next => ?_
    exact ((members k _).mp (List.mem_filter.mp next).1).1
  · exact .inl (threaded.clear k c here (inv.unfree inside))

theorem hash_live {k : Thread} {n : Int} (known : k.valid n) : db.hash n = 0 ∨ db.hash n ∈ live := by
  obtain ⟨on, threaded, members⟩ := inv.threads
  refine (threaded.chains k n known).head_mem.imp id fun head => ?_
  exact ((members k _).mp (List.mem_filter.mp head).1).1

variable {volid : UInt32}

theorem findOfType {r : Nat} (found : db.findOfType volid t = .ok r) :
    r = 0 ∨ r ∈ live ∧ volid = (db.block r).volumeId t := by
  obtain ⟨k, known⟩ := idHash_valid t volid
  have walked := findFrom_closed (fun c inside => inv.next_live (.id t) inside) (inv.hash_live known) found
  simpa only [decide_eq_true_eq] using walked

theorem findByID {t : Option VolType} {r : Nat} (found : db.findByID volid t = .ok r) : r = 0 ∨ r ∈ live := by
  have one : ∀ {t r}, db.findOfType volid t = .ok r → r = 0 ∨ r ∈ live := fun found =>
    (inv.findOfType found).imp id And.left
  cases t with
  | some t => exact one found
  | none =>
    obtain ⟨a, first, found⟩ := except_bind_eq_ok.mp found
    split at found
    · cases found
      exact one first
    obtain ⟨c, second, found⟩ := except_bind_eq_ok.mp found
    split at found
    · cases found
      exact one second
    · exact one found

theorem findByName {volname : List UInt8} {r : Nat} (found : db.findByName volname = .ok r) :
    r = 0 ∨ r ∈ live ∧ zapExtension volname = (db.block r).name := by
  have walked := findFrom_closed (fun c inside => inv.next_live .name inside) (inv.hash_live (valid_nameChain _)) found
  simpa only [decide_eq_true_eq] using walked

theorem findEntry {voltype : Int} {b : Nat} (found : db.findEntry volid voltype = .ok b) : b ∈ live := by
  obtain ⟨t, -, found⟩ := except_bind_eq_ok.mp found
  obtain ⟨r, lookup, found⟩ := except_bind_eq_ok.mp found
  obtain ⟨nonzero, same⟩ := ensure_then.mp found
  cases same
  exact (inv.findByID lookup).resolve_left nonzero

end Inv

namespace Work

variable {begun db db' : Vldb} {live free : List Nat} {b : Nat} {hashed : Thread → Prop} {e e' : NvlEntry}

variable {c : Prop}

section

variable (work : Work begun live free b hashed db e)
include work

theorem unhashVolidIf [Decidable c]
    (known : hashed (.id t) ↔ e.volumeId t ≠ 0)
    (done : (if c then db.unhashVolid t b e else .ok (db, e)) = .ok (db', e')) :
    e'.data = e.data ∧ Work begun live free b (update hashed (.id t) (hashed (.id t) ∧ ¬ c)) db' e' := by
  split at done
  · rename_i taken
    obtain ⟨data, after⟩ := work.unhashVolid known done
    refine ⟨data, after.hashed_congr fun k => ?_⟩
    simp [taken]
  rename_i kept
  cases done
  refine ⟨rfl, work.hashed_congr fun k => ?_⟩
  simp [kept]

theorem hashVolidIf [Decidable c]
    (out : c → ¬ hashed (.id t)) (plain : c → e.volumeId t ≠ leastInt)
    (done : (if c then db.hashVolid t b e else .ok (db, e)) = .ok (db', e')) :
    e'.data = e.data ∧ Work begun live free b (update hashed (.id t) (hashed (.id t) ∨ c)) db' e' := by
  split at done
  · rename_i taken
    obtain ⟨data, after⟩ := work.hashVolid (out taken) (plain taken) done
    refine ⟨data, after.hashed_congr fun k => ?_⟩
    simp [taken]
  rename_i kept
  cases done
  refine ⟨rfl, work.hashed_congr fun k => ?_⟩
  simp [kept]

theorem unhashVolnameIf [Decidable c] (known : hashed .name)
    (done : (if c then db.unhashVolname b e else .ok (db, e)) = .ok (db', e')) :
    e'.data = e.data ∧ Work begun live free b (update hashed .name (¬ c)) db' e' := by
  split at done
  · rename_i taken
    obtain ⟨data, after⟩ := work.unhashVolname known done
    refine ⟨data, after.hashed_congr fun k => ?_⟩
    simp [taken]
  rename_i kept
  cases done
  refine ⟨rfl, work.hashed_congr fun k => ?_⟩
  by_cases name : k = .name
  · subst name
    simp [kept, known]
  · simp [name]

theorem hashVolnameIf [Decidable c] (known : hashed .name ↔ ¬ c)
    (done : (if c then db.hashVolname b e else (db, e)) = (db', e')) :
    e'.data = e.data ∧ Work begun live free b (update hashed .name True) db' e' := by
  split at done
  · rename_i taken
    exact work.hashVolname (fun inside => known.mp inside taken) done
  rename_i kept
  cases done
  refine ⟨rfl, work.hashed_congr fun k => ?_⟩
  by_cases name : k = .name
  · subst name
    simp [known, kept]
  · simp [name]

end

theorem threadVLentry (work : Work begun live free b (fun _ => False) db e) (readWrite : e.volumeId .rw ≠ 0)
    (plain : ∀ t, e.volumeId t ≠ leastInt) {done : Vldb} (threaded : db.threadVLentry b e = .ok done) :
    ∃ db' e', Work begun live free b e'.hashed db' e' ∧ done = db'.put b e' ∧ e'.data = e.data := by
  obtain ⟨-, threaded⟩ := ensure_then.mp threaded
  obtain ⟨⟨db₁, e₁⟩, first, threaded⟩ := except_bind_eq_ok.mp threaded
  obtain ⟨⟨db₂, e₂⟩, second, threaded⟩ := optional_then.mp threaded
  obtain ⟨⟨db₃, e₃⟩, third, threaded⟩ := optional_then.mp threaded
  obtain ⟨data₁, work₁⟩ := work.hashVolid id (plain .rw) first
  have ids₁ := volumeId_of_data data₁
  obtain ⟨data₂, work₂⟩ := work₁.hashVolidIf (by simp) (fun _ => by rw [ids₁]; exact plain .ro) second
  have ids₂ := (volumeId_of_data data₂).trans ids₁
  obtain ⟨data₃, work₃⟩ := work₂.hashVolidIf (by simp) (fun _ => by rw [ids₂]; exact plain .back) third
  obtain ⟨data₄, work₄⟩ := work₃.hashVolname (by simp) rfl
  have data := data₄.trans (data₃.trans (data₂.trans data₁))
  refine ⟨_, _, work₄.hashed_congr fun k => ?_, (Except.ok.inj threaded).symm, data⟩
  rw [hashed_of_data data]
  cases k with
  | name => simp [NvlEntry.hashed]
  | id t => cases t <;> simp [NvlEntry.hashed, readWrite, ids₁, ids₂]

theorem unthreadVLentry (work : Work begun live free b e.hashed db e) {done : Vldb}
    (unthreaded : db.unthreadVLentry b e = .ok done) : ∃ e', Work begun live free b (fun _ => False) done e' := by
  obtain ⟨-, unthreaded⟩ := ensure_then.mp unthreaded
  obtain ⟨⟨db₁, e₁⟩, first, unthreaded⟩ := except_bind_eq_ok.mp unthreaded
  obtain ⟨⟨db₂, e₂⟩, second, unthreaded⟩ := except_bind_eq_ok.mp unthreaded
  obtain ⟨⟨db₃, e₃⟩, third, unthreaded⟩ := except_bind_eq_ok.mp unthreaded
  obtain ⟨⟨db₄, e₄⟩, fourth, unthreaded⟩ := except_bind_eq_ok.mp unthreaded
  cases unthreaded
  obtain ⟨data₁, work₁⟩ := work.unhashVolid Iff.rfl first
  have ids₁ := volumeId_of_data data₁
  obtain ⟨data₂, work₂⟩ := work₁.unhashVolid (t := .ro) (by simp [NvlEntry.hashed, ids₁]) second
  have ids₂ := (volumeId_of_data data₂).trans ids₁
  obtain ⟨data₃, work₃⟩ := work₂.unhashVolid (t := .back) (by simp [NvlEntry.hashed, ids₂]) third
  obtain ⟨data₄, work₄⟩ := work₃.unhashVolname (by simp [NvlEntry.hashed]) fourth
  refine ⟨e₄, work₄.hashed_congr fun k => ?_⟩
  cases k with
  | name => simp
  | id t => cases t <;> simp

end Work

theorem Work.write {db db' : Vldb} {live free : List Nat} {b : Nat} {e : NvlEntry}
    (work : Work db live free b e.hashed db' e) (inside : b ∈ live) (releasetype : UInt32) :
    Inv (db'.put b (releaseEntry releasetype e)) live free ∧
      ∀ c ≠ b, ((db'.put b (releaseEntry releasetype e)).block c).data = (db.block c).data := by
  have released : Work db live free b e.hashed db' (releaseEntry releasetype e) :=
    work.setEntry (fun k => by cases k <;> rfl) (fun _ => rfl) fun _ _ => rfl
  refine released.finish (fun _ => Iff.rfl) live fun c => ?_
  constructor
  · exact .inr
  · rintro (rfl | known)
    · exact inside
    · exact known

def releasedFlags (releasetype flags : UInt32) : UInt32 := if releasetype &&& 2 ≠ 0 then flags &&& ~~~ allOpers else flags

namespace Inv

variable {db db' : Vldb} {live free : List Nat} (inv : Inv db live free)
include inv

theorem create (readWrite : v.volumeId .rw ≠ 0)
    (plain : ∀ t, v.volumeId t ≠ leastInt) (done : db.create maxServers v = .ok db') :
    ∃ b free', b ∉ live ∧ Inv db' (b :: live) free' ∧ (∀ c ∈ live, (db'.block c).data = (db.block c).data) ∧
      (db'.block b).name = v.name ∧ (db'.block b).volumeId = v.volumeId ∧ (db'.block b).flags = v.flags ∧
      invalidVolname v.name = false ∧ db.findByName v.name = .ok 0 := by
  obtain ⟨_, checked, done⟩ := except_bind_eq_ok.mp done
  obtain ⟨-, done⟩ := optional_check.mp done
  obtain ⟨found, lookup, done⟩ := except_bind_eq_ok.mp done
  obtain ⟨missing, done⟩ := ensure_then.mp done
  obtain ⟨⟨db₁, e₁⟩, entry, done⟩ := except_bind_eq_ok.mp done
  obtain ⟨free', blocks, fresh, work⟩ := inv.allocBlock
  have same := vldbentryToVlentry_ok entry
  have named : Work db.allocBlock.1 live free' db.allocBlock.2 (fun _ => False) db₁ e₁ := by
    refine Work.servers (work.setEntry ?_ ?_ ?_) same
    · exact fun k => by cases k <;> rfl
    · exact fun impossible => impossible.elim
    · exact fun t impossible => impossible.elim
  obtain ⟨-, _, _, _, rfl⟩ := same
  obtain ⟨db₂, e₂, threaded, rfl, data⟩ := named.threadVLentry readWrite plain done
  obtain ⟨kept, others⟩ := threaded.finish (fun _ => Iff.rfl) (db.allocBlock.2 :: live) fun _ => List.mem_cons
  refine ⟨_, free', fresh, kept, ?_, ?_, ?_, ?_, (ensure_then.mp checked).1, ?_⟩
  · intro c inside
    have apart : c ≠ db.allocBlock.2 := by
      rintro rfl
      exact fresh inside
    rw [others c apart, blocks]
  · rw [block_put, if_pos rfl]
    exact (name_of_data data :)
  · rw [block_put, if_pos rfl]
    exact (volumeId_of_data data :)
  · rw [block_put, if_pos rfl]
    exact (flags_of_data data :)
  · rw [lookup, missing]

theorem deleteEntry {volid : UInt32} {voltype : Int} (done : db.deleteEntry volid voltype = .ok db') :
    ∃ b ∈ live, Inv db' (live.filter fun c => c ≠ b) (b :: free) ∧
      ∀ c ∈ live, c ≠ b → (db'.block c).data = (db.block c).data := by
  obtain ⟨b, found, done⟩ := except_bind_eq_ok.mp done
  obtain ⟨-, done⟩ := ensure_then.mp done
  obtain ⟨db₁, unthreaded, freed⟩ := except_bind_eq_ok.mp done
  have inside := inv.findEntry found
  obtain ⟨e, work⟩ := (inv.work inside).unthreadVLentry unthreaded
  obtain ⟨kept, others⟩ := work.freeBlock (fun _ => id) freed (live.filter fun c => c ≠ b) (by simp [and_comm])
  exact ⟨b, inside, kept, fun c _ => others c⟩

variable {releasetype : UInt32}

theorem updateFound {u : VldbUpdateEntry} {b : Nat} (inside : b ∈ live) (plain : u.PlainIds)
    (done : db.updateFound u releasetype b = .ok db') :
    Inv db' live free ∧ (∀ c ∈ live, c ≠ b → (db'.block c).data = (db.block c).data) ∧
      (db'.block b).name = u.nameOf (db.block b) ∧ (db'.block b).volumeId = u.idOf (db.block b) ∧
      (db'.block b).flags = releasedFlags releasetype (u.flagsOf (db.block b)) ∧
      (u.has VldbUpdateEntry.volumeName → invalidVolname u.name = false) := by
  obtain ⟨⟨db₁, e₁⟩, changed, done⟩ := except_bind_eq_ok.mp done
  cases done
  obtain ⟨work, name, ids, flags, valid⟩ := (inv.work inside).getVldbupdateentry plain changed
  obtain ⟨kept, others⟩ := work.write inside releasetype
  refine ⟨kept, fun c _ => others c, ?_, ?_, ?_⟩
  · rw [block_put, if_pos rfl]
    exact name
  · rw [block_put, if_pos rfl]
    exact ids
  · rw [block_put, if_pos rfl, ← flags]
    exact ⟨rfl, valid⟩

theorem replaceFound {b : Nat} (inside : b ∈ live)
    (plain : ∀ t, v.volumeId t ≠ leastInt) (done : db.replaceFound maxServers v releasetype b = .ok db') :
    Inv db' live free ∧ (∀ c ∈ live, c ≠ b → (db'.block c).data = (db.block c).data) ∧
      (db'.block b).name = v.name ∧ (db'.block b).volumeId = v.volumeId ∧
      (db'.block b).flags = releasedFlags releasetype v.flags := by
  obtain ⟨readWrite, done⟩ := ensure_then.mp done
  obtain ⟨⟨db₁, e₁⟩, offRo, done⟩ := optional_then.mp done
  obtain ⟨⟨db₂, e₂⟩, offBack, done⟩ := optional_then.mp done
  obtain ⟨⟨db₃, e₃⟩, offName, done⟩ := optional_then.mp done
  obtain ⟨⟨db₄, e₄⟩, stored, done⟩ := except_bind_eq_ok.mp done
  obtain ⟨⟨db₅, e₅⟩, onRo, done⟩ := optional_then.mp done
  obtain ⟨⟨db₆, e₆⟩, onBack, done⟩ := optional_then.mp done
  obtain ⟨data₁, work₁⟩ := (inv.work inside).unhashVolidIf Iff.rfl offRo
  obtain ⟨data₂, work₂⟩ := work₁.unhashVolidIf (by simp [NvlEntry.hashed, volumeId_of_data data₁]) offBack
  obtain ⟨data₃, work₃⟩ := work₂.unhashVolnameIf (by simp [NvlEntry.hashed]) offName
  have name₂ := (name_of_data data₂).trans (name_of_data data₁)
  have name₃ := (name_of_data data₃).trans name₂
  have ids₃ := (volumeId_of_data data₃).trans ((volumeId_of_data data₂).trans (volumeId_of_data data₁))
  have same := vldbentryToVlentry_ok stored
  -- what the block is still on the chain of does not change
  have work₄ := (work₃.setEntry (fun k => by cases k <;> rfl)
    (by
      intro known
      rw [update_self, not_not] at known
      rw [name₃, ← name₂]
      exact known)
    (by
      intro t known
      rw [ids₃]
      cases t with
      | rw => exact readWrite
      | ro =>
        simp only [update_self, update_of_ne, ne_eq, Thread.id.injEq, reduceCtorEq, not_false_eq_true, not_not] at known
        exact known.2.symm
      | back =>
        simp only [update_self, update_of_ne, ne_eq, Thread.id.injEq, reduceCtorEq, not_false_eq_true, not_not] at known
        exact known.2.symm)).servers same
  have ids₄ : e₄.volumeId = v.volumeId := by
    obtain ⟨-, _, _, _, rfl⟩ := same
    rfl
  have name₄ : e₄.name = v.name := by
    obtain ⟨-, _, _, _, rfl⟩ := same
    rfl
  have flags₄ : e₄.flags = v.flags := by
    obtain ⟨-, _, _, _, rfl⟩ := same
    rfl
  obtain ⟨data₅, work₅⟩ := work₄.hashVolidIf (by
    rintro ⟨changes, -⟩ known
    simp [changes] at known) (fun _ => ids₄ ▸ plain .ro) onRo
  have ids₅ := (volumeId_of_data data₅).trans ids₄
  obtain ⟨data₆, work₆⟩ := work₅.hashVolidIf (by
    rintro ⟨changes, -⟩ known
    simp [changes] at known) (fun _ => ids₅ ▸ plain .back) onBack
  dsimp only at done
  generalize last : (if v.name ≠ (db.block b).name then db₆.hashVolname b e₆ else (db₆, e₆)) = put at done
  obtain ⟨db₇, e₇⟩ := put
  obtain ⟨data₇, work₇⟩ := work₆.hashVolnameIf (by simp [name₂]) last
  cases done
  have data := data₇.trans (data₆.trans data₅)
  have work : Work db live free b e₇.hashed db₇ e₇ := by
    refine work₇.hashed_congr fun k => ?_
    rw [hashed_of_data data]
    cases k with
    | name => simp [NvlEntry.hashed]
    | id t =>
      have kept : ∀ t, v.volumeId t ≠ 0 ↔ (db.block b).volumeId t ≠ 0 ∧ (db.block b).volumeId t = v.volumeId t ∨
          (db.block b).volumeId t ≠ v.volumeId t ∧ v.volumeId t ≠ 0 := by
        intro t
        by_cases same : (db.block b).volumeId t = v.volumeId t
        · simp [same]
        · simp [same]
      cases t with
      | rw => simp [NvlEntry.hashed, ids₄, readWrite]
      | ro => simpa [NvlEntry.hashed, ids₄] using kept .ro
      | back => simpa [NvlEntry.hashed, ids₄, ids₅] using kept .back
  obtain ⟨after, others⟩ := work.write inside releasetype
  refine ⟨after, fun c _ => others c, ?_, ?_, ?_⟩
  · rw [block_put, if_pos rfl]
    exact (name_of_data data).trans name₄
  · rw [block_put, if_pos rfl]
    exact (volumeId_of_data data).trans ids₄
  · rw [block_put, if_pos rfl, ← flags₄, ← flags_of_data data]
    rfl

theorem replace {volid : UInt32} {voltype : Int}
    (plain : ∀ t, v.volumeId t ≠ leastInt) (done : db.replace maxServers volid voltype v releasetype = .ok db') :
    ∃ b ∈ live, db.findEntry volid voltype = .ok b ∧
      Inv db' live free ∧ (∀ c ∈ live, c ≠ b → (db'.block c).data = (db.block c).data) ∧
      (db'.block b).name = v.name ∧ (db'.block b).volumeId = v.volumeId ∧
      (db'.block b).flags = releasedFlags releasetype v.flags ∧ invalidVolname v.name = false := by
  obtain ⟨_, checked, done⟩ := except_bind_eq_ok.mp done
  obtain ⟨-, -, done⟩ := except_bind_eq_ok.mp done
  obtain ⟨-, done⟩ := ensure_then.mp done
  obtain ⟨b, found, done⟩ := except_bind_eq_ok.mp done
  have inside := inv.findEntry found
  obtain ⟨kept, others, name, ids, flags⟩ := inv.replaceFound inside plain done
  exact ⟨b, inside, found, kept, others, name, ids, flags, (ensure_then.mp checked).1⟩

end Inv

end OpenAFS.Vlserver
