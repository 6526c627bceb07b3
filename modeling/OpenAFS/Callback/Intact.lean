import OpenAFS.Callback.Operations
import OpenAFS.Callback.Unlinking

namespace OpenAFS.Callback

open Lib List
open Function (update)

structure Intact (held : List Nat) (s : Package) (l : Lists) : Prop where
  loose : Loose held (· ∈ l.entries) s l
  home : ∀ cb ∈ l.chained, s.CB.fhead cb ∈ l.entries
  hosted : ∀ cb, cb ∈ l.hosted ↔ cb ∈ l.chained
  timed : ∀ cb, cb ∈ l.timed ↔ cb ∈ l.chained

def Lists.unlink (l : Lists) (s : Package) (cb : Nat) : Lists :=
  Lists.drop { l with hosted := without l.hosted cb, timed := without l.timed cb } s cb

def Lists.expire (l : Lists) (s : Package) (cb : Nat) : Lists :=
  Lists.drop { l with hosted := without l.hosted cb } s cb

theorem drop_home {s t : Package} {l : Lists} {cb : Nat} (home : ∀ c ∈ l.chained, s.CB.fhead c ∈ l.entries)
    (labels : t.CB.fhead = update s.CB.fhead cb 0) :
    ∀ c ∈ (l.drop s cb).chained, t.CB.fhead c ∈ (l.drop s cb).entries := by
  intro c within
  rw [Lists.drop_chained] at within
  have old := mem_without.mp within
  rw [labels, Function.update_of_ne old.2, Lists.mem_drop_entries]
  exact ⟨home c old.1, fun same => ⟨c, within, same⟩⟩

namespace Intact

variable {held : List Nat} {s : Package} {l : Lists} {cb : Nat}

theorem detach (intact : Intact held s l) (inside : cb ∈ l.chained) : Loose held (· ∈ l.entries) ((s.tDel cb).hDel cb)
      { l with hosted := without l.hosted cb, timed := without l.timed cb } :=
  (intact.loose.tDel ((intact.timed cb).mpr inside)).hDel ((intact.hosted cb).mpr inside)

theorem unlinked {c : Chains} (intact : Intact held s l) (labels : c.fhead = update s.CB.fhead cb 0)
    (rest : Loose held (· ∈ (l.unlink s cb).entries) (((s.tDel cb).hDel cb).withChains c) (l.unlink s cb)) :
    Intact held (((s.tDel cb).hDel cb).withChains c) (l.unlink s cb) where
  loose := rest
  home := drop_home intact.home labels
  hosted := by
    intro d
    simp only [Lists.unlink, Lists.drop_hosted, Lists.drop_chained, mem_without, intact.hosted]
  timed := by
    intro d
    simp only [Lists.unlink, Lists.drop_timed, Lists.drop_chained, mem_without, intact.timed]

theorem unlink (intact : Intact held s l) (inside : cb ∈ l.chained) :
    ∃ c : Chains, ((s.tDel cb).hDel cb).cDel cb true = some (((s.tDel cb).hDel cb).withChains c) ∧
      c.fhead = update s.CB.fhead cb 0 ∧ c.FE.later = s.FE.later ∧ c.FE.volid = s.FE.volid ∧
      Intact held (((s.tDel cb).hDel cb).withChains c) (l.unlink s cb) := by
  obtain ⟨c, done, labels, later, volid, rest⟩ := Loose.cDel
    (l := { l with hosted := without l.hosted cb, timed := without l.timed cb })
    (intact.detach inside) inside (intact.home cb inside)
  exact ⟨c, done, labels, later, volid, intact.unlinked labels rest⟩

theorem unlinkPtr {before after : List Nat} (intact : Intact held s l) (inside : cb ∈ l.chained)
    (split : (l.chained.filter fun c => s.CB.fhead c = s.CB.fhead cb) = before ++ cb :: after)
    (early : ∀ c ∈ before, c ∈ l.chained ∧ c ≠ cb) :
    ∃ c : Chains, ((s.tDel cb).hDel cb).cDelPtr (s.CB.fhead cb) (slotAfter .next (.first (s.CB.fhead cb)) before) true =
        some (((s.tDel cb).hDel cb).withChains c) ∧ c.fhead = update s.CB.fhead cb 0 ∧ c.FE.later = s.FE.later ∧
      c.FE.volid = s.FE.volid ∧ Intact held (((s.tDel cb).hDel cb).withChains c) (l.unlink s cb) := by
  obtain ⟨c, done, labels, later, volid, rest⟩ := Loose.cDelPtr
    (l := { l with hosted := without l.hosted cb, timed := without l.timed cb })
    (intact.detach inside) inside (intact.home cb inside) split early
  exact ⟨c, done, labels, later, volid, intact.unlinked labels rest⟩

end Intact

theorem Full.unlink {s t : Package} {l : Lists} {cb : Nat} (full : Full s l)
    (labels : t.CB.fhead = update s.CB.fhead cb 0) : Full t (l.unlink s cb) :=
  Full.drop (l := { l with hosted := without l.hosted cb, timed := without l.timed cb }) full labels

structure Expiring (held : List Nat) (old s : Package) (l₀ l : Lists) (gone : List Nat) : Prop where
  loose : Loose held (· ∈ l.entries) s l
  home : ∀ cb ∈ l.chained, s.CB.fhead cb ∈ l.entries
  hosted : ∀ cb, cb ∈ l.hosted ↔ cb ∈ l.chained
  chained : ∀ cb, cb ∈ l.chained ↔ cb ∈ l₀.timed ∧ cb ∉ gone
  timed : l.timed = l₀.timed
  apart : l.apart = l₀.apart
  tnext : s.CB.tnext = old.CB.tnext
  thead : s.CB.thead = old.CB.thead
  timeout : s.timeout = old.timeout
  nblks : s.nblks = old.nblks
  tfirst : s.tfirst = old.tfirst
  full : Full old l₀ → Full s l

theorem Expiring.step {held : List Nat} {old s : Package} {l₀ l : Lists} {gone : List Nat} {cb : Nat}
    (here : Expiring held old s l₀ l gone) (inside : cb ∈ l₀.timed) (fresh : cb ∉ gone) :
    ∃ c : Chains, (s.hDel cb).cDel cb true = some ((s.hDel cb).withChains c) ∧
      Expiring held old ((s.hDel cb).withChains c) l₀ (l.expire s cb) (gone ++ [cb]) := by
  have member : cb ∈ l.chained := (here.chained cb).mpr ⟨inside, fresh⟩
  obtain ⟨c, done, labels, later, volid, rest⟩ := Loose.cDel (l := { l with hosted := without l.hosted cb })
    (here.loose.hDel ((here.hosted cb).mpr member)) member (here.home cb member)
  refine ⟨c, done, {
    here with
    loose := rest
    home := drop_home here.home labels
    hosted := ?_, chained := ?_
    timed := (Lists.drop_timed ..).trans here.timed
    apart := (Lists.drop_apart ..).trans here.apart
    full := fun full => Full.drop (l := { l with hosted := without l.hosted cb }) (here.full full) labels }⟩
  · intro d
    simp only [Lists.expire, Lists.drop_hosted, Lists.drop_chained, mem_without, here.hosted]
  · intro d
    simp only [Lists.expire, Lists.drop_chained, mem_without, here.chained, mem_append, mem_singleton]
    tauto

theorem Expiring.walk {held : List Nat} {old s : Package} {l₀ l : Lists} {gone rest : List Nat}
    {thead cb n ntimedout : Nat} (here : Expiring held old s l₀ l gone)
    (members : ∀ c ∈ cb :: rest, c ∈ l₀.timed ∧ c ∉ gone) (once : (cb :: rest).Nodup)
    (path : Path old.CB.tnext old.CB.tprev cb rest (old.timeout thead)) (other : old.timeout thead ∉ rest)
    (enough : rest.length < n) (count : ntimedout + l.chained.length ≤ old.nblks) :
    ∃ s' l' k, Package.expireQueue thead n cb ntimedout s = some (k, s') ∧
      Expiring held old s' l₀ l' (gone ++ cb :: rest) ∧ k + l'.chained.length ≤ old.nblks := by
  induction rest generalizing s l gone cb n ntimedout with
  | nil =>
    cases n with
    | zero => cases enough
    | succ n =>
      obtain ⟨inside, fresh⟩ := members cb mem_cons_self
      obtain ⟨c, done, next⟩ := here.step inside fresh
      have member : cb ∈ l.chained := (here.chained cb).mpr ⟨inside, fresh⟩
      have fewer := length_without member here.loose.chained_nodup
      have some' := length_pos_of_mem member
      refine ⟨_, _, ntimedout + 1, ?_, next, ?_⟩
      · simp only [Package.expireQueue, done, Option.bind_eq_bind, Option.bind_some]
        rw [if_neg, if_pos]
        · rw [next.timeout, here.tnext]
          exact path.1
        · rw [next.nblks]
          omega
      · rw [Lists.expire, Lists.drop_chained, fewer]
        omega
  | cons d more ih =>
    cases n with
    | zero => cases enough
    | succ n =>
      obtain ⟨inside, fresh⟩ := members cb mem_cons_self
      obtain ⟨c, done, next⟩ := here.step inside fresh
      have member : cb ∈ l.chained := (here.chained cb).mpr ⟨inside, fresh⟩
      have fewer := length_without member here.loose.chained_nodup
      have some' := length_pos_of_mem member
      rw [nodup_cons] at once
      have members' : ∀ c ∈ d :: more, c ∈ l₀.timed ∧ c ∉ gone ++ [cb] := by
        intro e within
        obtain ⟨listed, outside⟩ := members e (mem_cons_of_mem _ within)
        refine ⟨listed, ?_⟩
        simp only [mem_append, mem_singleton, not_or]
        refine ⟨outside, ?_⟩
        rintro rfl
        exact once.1 within
      have count' : ntimedout + 1 + (l.expire s cb).chained.length ≤ old.nblks := by
        rw [Lists.expire, Lists.drop_chained, fewer]
        omega
      obtain ⟨s', l', k, walked, last, total⟩ := ih next members' once.2 path.2.2
        (fun within => other (mem_cons_of_mem _ within)) (Nat.lt_of_succ_lt_succ enough) count'
      refine ⟨s', l', k, ?_, ?_, total⟩
      · simp only [Package.expireQueue, done, Option.bind_eq_bind, Option.bind_some]
        rw [if_neg, if_neg]
        · rw [here.tnext, path.1]
          exact walked
        · rw [next.timeout, here.tnext, path.1]
          rintro rfl
          exact other mem_cons_self
        · rw [next.nblks]
          omega
      · rw [append_assoc] at last
        exact last

end OpenAFS.Callback
