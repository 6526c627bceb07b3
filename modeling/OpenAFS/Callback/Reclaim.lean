import OpenAFS.Callback.Intact
import Mathlib.Data.List.Perm.Subperm

namespace OpenAFS.Callback

open Lib List Option
open Function (update update_of_ne)

def Kept (held : List Nat) (s : Package) (l : Lists) (s' : Package) : Prop :=
  ∃ l', Intact held s' l' ∧ l'.apart = l.apart ∧ (Full s l → Full s' l')

theorem Intact.expiring {held : List Nat} {s : Package} {l : Lists} (intact : Intact held s l) : Expiring held s s l l [] where
  loose := intact.loose
  home := intact.home
  hosted := intact.hosted
  chained := by simp [intact.timed]
  timed := rfl
  apart := rfl
  tnext := rfl
  thead := rfl
  timeout := rfl
  nblks := rfl
  tfirst := rfl
  full := id

theorem Expiring.finish {held : List Nat} {old s : Package} {l₀ l : Lists} {gone : List Nat} {k : Nat}
    (here : Expiring held old s l₀ l gone) (all : ∀ cb ∈ l₀.timed, cb ∈ gone ↔ old.CB.thead cb = k) :
    Intact held { s with timeout := update s.timeout k 0 } { l with timed := l.timed.filter fun c => s.CB.thead c ≠ k } where
  loose := { here.loose with
    shape := { here.loose.shape with queues := here.loose.shape.queues.clear k }
    queues := fun c within => here.loose.queues c (List.mem_filter.mp within).1 }
  home := here.home
  hosted := here.hosted
  timed := by
    intro cb
    simp only [mem_filter, decide_eq_true_eq, ne_eq, here.chained, here.timed, here.thead]
    refine and_congr_right fun inside => ?_
    rw [all cb inside]

namespace Intact

variable {held : List Nat} {s : Package} {l : Lists}

theorem chained_length (intact : Intact held s l) : l.chained.length ≤ s.nblks := intact.loose.chained_length

theorem expireQueue {k ntimedout : Nat} (intact : Intact held s l) (some' : s.timeout k ≠ 0)
    (count : ntimedout + l.chained.length ≤ s.nblks) :
    ∃ m s' l', Package.expireQueue k (s.nblks + 1) (s.timeout k) ntimedout s = some (m, s') ∧
      Intact held { s' with timeout := update s'.timeout k 0 } l' ∧ m + l'.chained.length ≤ s'.nblks ∧
      s'.nblks = s.nblks ∧ s'.tfirst = s.tfirst ∧ l'.apart = l.apart ∧ (Full s l → Full s' l') := by
  have ring := intact.loose.shape.queues k
  cases split : l.timed.filter fun c => s.CB.thead c = k with
  | nil =>
    rw [split] at ring
    exact absurd ring some'
  | cons b rest =>
    rw [split] at ring
    obtain ⟨start, -, once, path⟩ := ring
    have members : ∀ c, c ∈ b :: rest ↔ c ∈ l.timed ∧ s.CB.thead c = k := by
      intro c
      rw [← split]
      simp
    have short : rest.length < s.nblks + 1 := by
      have listed : (b :: rest).Subperm l.chained := by
        apply once.subperm
        intro c within
        exact (intact.timed c).mp ((members c).mp within).1
      have bound := listed.length_le
      simp only [length_cons] at bound
      omega
    have around : Path s.CB.tnext s.CB.tprev b rest (s.timeout k) := by rwa [start]
    have apart : s.timeout k ∉ rest := by
      rw [start]
      exact (List.nodup_cons.mp once).1
    rw [start]
    obtain ⟨s', l', m, walked, last, total⟩ := intact.expiring.walk
      (fun c within => ⟨((members c).mp within).1, by simp⟩) once around apart short count
    refine ⟨m, s', _, walked, last.finish (k := k) ?_, ?_, last.nblks, last.tfirst, last.apart, last.full⟩
    · intro c inside
      rw [nil_append, members]
      exact and_iff_right inside
    · rw [last.nblks]
      exact total

theorem expire {n ntimedout : Nat} (intact : Intact held s l) (count : ntimedout + l.chained.length ≤ s.nblks) :
    ∃ m s', Package.expire n ntimedout s = some (m, s') ∧ Kept held s l s' := by
  induction n generalizing s l ntimedout with
  | zero => exact ⟨ntimedout, s, rfl, l, intact, rfl, id⟩
  | succ n ih =>
    by_cases empty : s.timeout (Package.tIndex s.tfirst) = 0
    · obtain ⟨m, s', done, l', kept, apart, full⟩ := ih (s := { s with tfirst := s.tfirst + 1 }) (l := l)
        { intact with loose := { intact.loose with shape := { intact.loose.shape with } } } count
      refine ⟨m, s', ?_, l', kept, apart, full⟩
      simp only [Package.expire, empty, ne_eq, not_true_eq_false, if_false, bind_eq_bind, bind_some]
      exact done
    obtain ⟨k, s₁, l₁, queue, intact₁, count₁, size, first, apart₁, full₁⟩ := intact.expireQueue empty count
    obtain ⟨m, s', done, l', kept, apart, full⟩ := ih
      (s := { s₁ with timeout := update s₁.timeout (Package.tIndex s.tfirst) 0, tfirst := s₁.tfirst + 1 })
      (l := l₁)
      { intact₁ with loose := { intact₁.loose with shape := { intact₁.loose.shape with } } } count₁
    refine ⟨m, s', ?_, l', kept, apart.trans apart₁, fun before => full (full₁ before)⟩
    simp only [Package.expire, ne_eq, empty, not_false_eq_true, if_true, queue, bind_eq_bind, bind_some]
    exact done

theorem cleanup (intact : Intact held s l) : ∃ found s', s.cleanupTimedOutCallBacks = some (found, s') ∧ Kept held s l s' := by
  have count : 0 + l.chained.length ≤ s.nblks := by
    rw [Nat.zero_add]
    exact intact.chained_length
  obtain ⟨m, s', done, kept⟩ := intact.expire (n := Package.cbTime s.approxTime + 1 - s.tfirst) count
  refine ⟨decide (m > 0), s', ?_, kept⟩
  simp only [Package.cleanupTimedOutCallBacks, done, bind_eq_bind, bind_some]

end Intact

structure Clearing (held : List Nat) (deletefe : Bool) (old s : Package) (l₀ l : Lists) (gone : List Nat) : Prop where
  loose : Loose held (· ∈ l.entries) s l
  home : ∀ cb ∈ l.chained, s.CB.fhead cb ∈ l.entries
  timed : ∀ cb, cb ∈ l.timed ↔ cb ∈ l.chained
  chained : ∀ cb, cb ∈ l.chained ↔ cb ∈ l₀.hosted ∧ cb ∉ gone
  hosted : l.hosted = l₀.hosted
  apart : l.apart = l₀.apart
  entries : ∀ fe ∈ l.entries, fe ∈ l₀.entries
  hnext : s.CB.hnext = old.CB.hnext
  hhead : s.CB.hhead = old.CB.hhead
  fhead : ∀ cb ∈ l.chained, s.CB.fhead cb = old.CB.fhead cb
  host : s.host = old.host
  full : deletefe = true → Full old l₀ → Full s l

theorem Intact.clearing {held : List Nat} {s : Package} {l : Lists} (intact : Intact held s l) (deletefe : Bool) :
    Clearing held deletefe s s l l [] where
  loose := intact.loose
  home := intact.home
  timed := intact.timed
  chained := by simp [intact.hosted]
  hosted := rfl
  apart := rfl
  entries := fun _ => id
  hnext := rfl
  hhead := rfl
  fhead := fun _ _ => rfl
  host := rfl
  full := fun _ => id

namespace Clearing

variable {held : List Nat} {deletefe : Bool} {old s : Package} {l₀ l : Lists} {gone rest : List Nat} {cb : Nat}

variable (here : Clearing held deletefe old s l₀ l gone)
include here

theorem step (inside : cb ∈ l₀.hosted) (fresh : cb ∉ gone) :
    ∃ s' l', (s.tDel cb).cDel cb deletefe = some s' ∧ Clearing held deletefe old s' l₀ l' (gone ++ [cb]) := by
  have member : cb ∈ l.chained := (here.chained cb).mpr ⟨inside, fresh⟩
  have untimed := here.loose.tDel ((here.timed cb).mpr member)
  have chained : ∀ d, d ∈ without l.chained cb ↔ d ∈ l₀.hosted ∧ d ∉ gone ++ [cb] := by
    intro d
    simp only [mem_without, here.chained, mem_append, mem_singleton]
    tauto
  have timed : ∀ d, d ∈ without l.timed cb ↔ d ∈ without l.chained cb := by
    intro d
    simp only [mem_without, here.timed]
  cases deletefe with
  | true =>
    obtain ⟨c, done, labels, later, volid, rest⟩ := Loose.cDel (l := { l with timed := without l.timed cb }) untimed member
      (here.home cb member)
    refine ⟨_, _, done, {
      loose := rest
      home := drop_home (l := { l with timed := without l.timed cb }) here.home labels
      timed := ?_, chained := ?_
      hosted := (Lists.drop_hosted ..).trans here.hosted
      apart := (Lists.drop_apart ..).trans here.apart
      entries := fun fe within => here.entries fe (Lists.mem_drop_entries.mp within).1
      hnext := here.hnext
      hhead := here.hhead
      fhead := ?_
      host := here.host
      full := fun _ full =>
        Full.drop (l := { l with timed := without l.timed cb }) (here.full rfl full) labels }⟩
    · intro d
      rw [Lists.drop_timed, Lists.drop_chained]
      exact timed d
    · intro d
      rw [Lists.drop_chained]
      exact chained d
    intro d within
    rw [Lists.drop_chained] at within
    have old := mem_without.mp within
    refine Eq.trans ?_ (here.fhead d old.1)
    change c.fhead d = s.CB.fhead d
    rw [labels, update_of_ne old.2]
    rfl
  | false =>
    obtain ⟨c, done, labels, later, volid, vnode, rest⟩ := untimed.cDel_keep member (here.home cb member)
    refine ⟨_, Lists.cut { l with timed := without l.timed cb } cb, done, {
      loose := rest
      home := ?_
      timed := timed, chained := chained
      hosted := here.hosted
      apart := here.apart
      entries := here.entries
      hnext := here.hnext
      hhead := here.hhead
      fhead := ?_
      host := here.host
      full := nofun }⟩
    · intro d within
      have old := mem_without.mp within
      change c.fhead d ∈ l.entries
      rw [labels, update_of_ne old.2]
      exact here.home d old.1
    intro d within
    have old := mem_without.mp within
    refine Eq.trans ?_ (here.fhead d old.1)
    change c.fhead d = s.CB.fhead d
    rw [labels, update_of_ne old.2]
    rfl

theorem walk {first n : Nat}
    (members : ∀ c ∈ cb :: rest, c ∈ l₀.hosted ∧ c ∉ gone) (once : (cb :: rest).Nodup)
    (path : Path old.CB.hnext old.CB.hprev cb rest first) (other : first ∉ rest) (enough : rest.length < n) :
    ∃ s' l', Package.deleteHostList first deletefe n cb s = some s' ∧
      Clearing held deletefe old s' l₀ l' (gone ++ cb :: rest) := by
  induction rest generalizing s l gone cb n with
  | nil =>
    cases n with
    | zero => cases enough
    | succ n =>
      obtain ⟨inside, fresh⟩ := members cb mem_cons_self
      obtain ⟨s', l', done, next⟩ := here.step inside fresh
      refine ⟨s', l', ?_, next⟩
      simp only [Package.deleteHostList, done, bind_eq_bind, bind_some]
      rw [if_pos]
      rw [here.hnext]
      exact path.1
  | cons d more ih =>
    cases n with
    | zero => cases enough
    | succ n =>
      obtain ⟨inside, fresh⟩ := members cb mem_cons_self
      obtain ⟨s₁, l₁, done, next⟩ := here.step inside fresh
      rw [nodup_cons] at once
      have members' : ∀ c ∈ d :: more, c ∈ l₀.hosted ∧ c ∉ gone ++ [cb] := by
        intro e within
        obtain ⟨listed, outside⟩ := members e (mem_cons_of_mem _ within)
        refine ⟨listed, ?_⟩
        simp only [mem_append, mem_singleton, not_or]
        refine ⟨outside, ?_⟩
        rintro rfl
        exact once.1 within
      obtain ⟨s', l', walked, last⟩ := ih next (n := n) members' once.2 path.2.2
        (fun within => other (mem_cons_of_mem _ within)) (by simpa using enough)
      refine ⟨s', l', ?_, ?_⟩
      · simp only [Package.deleteHostList, done, bind_eq_bind, bind_some]
        rw [if_neg]
        · rw [here.hnext, path.1]
          exact walked
        · rw [here.hnext, path.1]
          rintro rfl
          exact other mem_cons_self
      · rw [append_assoc] at last
        exact last

theorem finish {k : Nat}
    (all : ∀ cb ∈ l₀.hosted, cb ∈ gone ↔ old.CB.hhead cb = k) :
    Intact held { s with host := s.setCblist k 0 } { l with hosted := l.hosted.filter fun c => s.CB.hhead c ≠ k } where
  loose := { here.loose with
    shape := { here.loose.shape with
      hosts := by
        refine (here.loose.shape.hosts.clear k).congr (fun _ _ => rfl) (fun _ _ => rfl) (fun _ _ => rfl) ?_
        funext h
        rw [Function.update_apply]
        exact cblist_set s k 0 h } }
  home := here.home
  timed := here.timed
  hosted := by
    intro cb
    simp only [mem_filter, decide_eq_true_eq, ne_eq, here.chained, here.hosted, here.hhead]
    refine and_congr_right fun inside => ?_
    rw [all cb inside]

end Clearing

def Spared (s : Package) (l : Lists) (host : Nat) : Prop :=
  ∀ fe ∈ l.entries, ∃ cb ∈ l.chained, s.CB.fhead cb = fe ∧ s.CB.hhead cb ≠ host

theorem Intact.deleteAllCallBacks {held : List Nat} {s : Package} {l : Lists} (intact : Intact held s l) (host : Nat)
    (deletefe : Bool) : ∃ s' l', s.deleteAllCallBacks host deletefe = some s' ∧ Intact held s' l' ∧
      l'.apart = l.apart ∧ (∀ cb, cb ∈ l'.chained ↔ cb ∈ l.chained ∧ s.CB.hhead cb ≠ host) ∧
      s'.CB.hhead = s.CB.hhead ∧ (deletefe = true ∨ Spared s l host → Full s l → Full s' l') := by
  have ring := intact.loose.shape.hosts host
  cases split : l.hosted.filter fun c => s.CB.hhead c = host with
  | nil =>
    rw [split] at ring
    have empty : (s.host host).cblist = 0 := ring
    refine ⟨s, l, ?_, intact, rfl, ?_, rfl, fun _ => id⟩
    · simp only [Package.deleteAllCallBacks, empty, if_true]
    intro cb
    refine ⟨fun inside => ⟨inside, ?_⟩, fun both => both.1⟩
    have none := List.filter_eq_nil_iff.mp split cb ((intact.hosted cb).mpr inside)
    simpa using none
  | cons b rest =>
    rw [split] at ring
    obtain ⟨start, zero, once, path⟩ := ring
    have start' : (s.host host).cblist = b := start
    have some' : b ≠ 0 := by
      rintro rfl
      exact zero mem_cons_self
    have members : ∀ c, c ∈ b :: rest ↔ c ∈ l.hosted ∧ s.CB.hhead c = host := by
      intro c
      rw [← split]
      simp
    have short : rest.length < s.nblks + 1 := by
      have listed : (b :: rest).Subperm l.chained := by
        apply once.subperm
        intro c within
        exact (intact.hosted c).mp ((members c).mp within).1
      have bound := listed.length_le
      have total := intact.chained_length
      simp only [length_cons] at bound
      omega
    obtain ⟨s', l', walked, last⟩ := (intact.clearing deletefe).walk
      (fun c within => ⟨((members c).mp within).1, by simp⟩) once path (List.nodup_cons.mp once).1 short
    rw [nil_append] at last
    have chained : ∀ cb, cb ∈ l'.chained ↔ cb ∈ l.chained ∧ s.CB.hhead cb ≠ host := by
      intro cb
      rw [last.chained, members, intact.hosted]
      tauto
    refine ⟨{ s' with host := s'.setCblist host 0 }, _, ?_, last.finish (k := host) ?_, last.apart, chained, last.hhead, ?_⟩
    · simp only [Package.deleteAllCallBacks, start', some', if_false, walked, bind_eq_bind, bind_some]
    · intro c inside
      rw [members]
      exact and_iff_right inside
    rintro (deletes | spared) full
    · exact last.full deletes full
    intro fe within
    obtain ⟨cb, inside, home, other⟩ := spared fe (last.entries fe within)
    have still : cb ∈ l'.chained := (chained cb).mpr ⟨inside, other⟩
    exact ⟨cb, still, (last.fhead cb still).trans home⟩

end OpenAFS.Callback
