import OpenAFS.Callback.Package
import OpenAFS.Lib.HashTable
import OpenAFS.Lib.Rings

namespace OpenAFS.Callback

open Lib
open Function (update update_self update_of_ne)

/-- The members of the package's lists. The callbacks of one file entry, of one host or of one timeout queue are those
of the whole list that name it, in order. File entries that are apart are neither free nor on a hash chain. -/
structure Lists where
  freeCB : List Nat
  freeFE : List Nat
  entries : List Nat
  apart : List Nat
  chained : List Nat
  hosted : List Nat
  timed : List Nat

def without (l : List Nat) (c : Nat) : List Nat := l.filter fun d => d ≠ c

theorem mem_without {l : List Nat} {c d : Nat} : d ∈ without l c ↔ d ∈ l ∧ d ≠ c := by
  simp [without]

theorem perm_cons_without {l : List Nat} {c : Nat} (inside : c ∈ l) (once : l.Nodup) : (c :: without l c).Perm l :=
  perm_cons_filter_ne inside once

theorem without_of_notMem {l : List Nat} {c : Nat} (outside : c ∉ l) : without l c = l :=
  filter_ne_of_notMem outside

structure Shape (s : Package) (whole : Nat → Prop) (l : Lists) : Prop where
  freeCB : Linked id s.CB.cnext s.CBfree l.freeCB
  freeFE : Linked id s.FE.vnode s.FEfree l.freeFE
  table : Buckets s.feAt .next .head (· < fehashSize) s.hash l.entries
  chains : Buckets s.cbAt .next .first whole s.CB.fhead l.chained
  hosts : Rings s.CB.hnext s.CB.hprev s.CB.hhead (fun h => (s.host h).cblist) l.hosted
  queues : Rings s.CB.tnext s.CB.tprev s.CB.thead s.timeout l.timed

theorem feHash_lt (volume unique : Nat) : feHash volume unique < fehashSize := Nat.mod_lt _ (by decide)

theorem hash_lt (s : Package) (fe : Nat) : s.hash fe < fehashSize := feHash_lt ..

theorem next_injective : Function.Injective CbSlot.next := fun _ _ same => CbSlot.next.inj same

theorem first_injective : Function.Injective CbSlot.first := fun _ _ same => CbSlot.first.inj same

theorem fnext_injective : Function.Injective FeSlot.next := fun _ _ same => FeSlot.next.inj same

theorem head_injective : Function.Injective FeSlot.head := fun _ _ same => FeSlot.head.inj same

theorem free_push {next : Nat → Nat} {head b : Nat} {cells : List Nat} (linked : Linked id next head cells)
    (some : b ≠ 0) (fresh : b ∉ cells) : Linked id (update next b head) b (b :: cells) := by
  refine ⟨rfl, some, ?_⟩
  rw [update_self]
  apply linked.congr_values
  intro c inside
  rw [update_of_ne]
  rintro rfl
  exact fresh inside

theorem update_back {f : Nat → Nat} {a c : Nat} : update f a (f c) c = f c := by
  by_cases same : c = a
  · rw [same, update_self]
  · rw [update_of_ne same]

theorem update_if {f : Nat → Nat} {a c v : Nat} :
    (if f a = c then update f a v else f) = update f a (if f a = c then v else f a) := by
  split
  · rfl
  · rw [Function.update_eq_self]

theorem cblist_set (s : Package) (k v h : Nat) : (s.setCblist k v h).cblist = if h = k then v else (s.host h).cblist := by
  by_cases this : h = k
  · rw [if_pos this, this, Package.setCblist, update_self]
  · rw [if_neg this, Package.setCblist, update_of_ne this]

namespace Shape

variable {s : Package} {whole : Nat → Prop} {l : Lists} {cb : Nat}

variable (shape : Shape s whole l)
include shape

theorem weaken {fewer : Nat → Prop} (less : ∀ fe, fewer fe → whole fe) : Shape s fewer l :=
  { shape with chains := fun fe known => shape.chains fe (less fe known) }

theorem chain {fe : Nat} (known : whole fe) :
    Linked s.cbAt .next (.first fe) (l.chained.filter fun cb => s.CB.fhead cb = fe) := shape.chains fe known

theorem bucket {hash : Nat} (known : hash < fehashSize) :
    Linked s.feAt .next (.head hash) (l.entries.filter fun fe => s.hash fe = hash) := shape.table hash known

theorem tDel (inside : cb ∈ l.timed) :
    Shape (s.tDel cb) whole { l with timed := without l.timed cb } := by
  have next : s.CB.tnext cb ≠ 0 := shape.queues.ne_zero (shape.queues.next_mem inside).1
  have prev : s.CB.tprev cb ≠ 0 := shape.queues.ne_zero (shape.queues.prev_mem inside).1
  have queues := shape.queues.remove inside
  rw [← update_if] at queues
  refine { shape with queues := ?_ }
  simp only [Package.tDel, if_pos prev, update_back, if_pos next]
  exact queues

theorem hDel (inside : cb ∈ l.hosted) :
    Shape (s.hDel cb) whole { l with hosted := without l.hosted cb } := by
  have hosts := shape.hosts.remove inside
  refine { shape with hosts := ?_ }
  simp only [Package.hDel, update_back]
  refine hosts.congr (fun _ _ => rfl) (fun _ _ => rfl) (fun _ _ => rfl) ?_
  funext h
  by_cases first : (s.host (s.CB.hhead cb)).cblist = cb
  · rw [if_pos first, if_pos first, cblist_set, Function.update_apply]
  · rw [if_neg first, if_neg first]
    exact (congrFun (Function.update_eq_self (s.CB.hhead cb) fun h => (s.host h).cblist) h).symm

theorem tAdd {thead : Nat} (some : cb ≠ 0) (fresh : cb ∉ l.timed) :
    Shape (s.tAdd cb thead) whole { l with timed := l.timed ++ [cb] } := by
  have labels : ∀ b ∈ l.timed, update s.CB.thead cb thead b = s.CB.thead b := by
    intro b inside
    rw [update_of_ne]
    rintro rfl
    exact fresh inside
  have label : update s.CB.thead cb thead cb = thead := update_self ..
  refine { shape with queues := ?_ }
  by_cases empty : s.timeout thead = 0
  · have queues := shape.queues.begin some fresh (by rw [label]; exact empty) labels
    rw [label] at queues
    simp only [Package.tAdd, if_pos empty]
    exact queues
  have more : s.timeout (update s.CB.thead cb thead cb) ≠ 0 := by rwa [label]
  have ring := shape.queues thead
  cases split : l.timed.filter fun c => s.CB.thead c = thead with
  | nil =>
    rw [split] at ring
    exact absurd ring empty
  | cons b rest =>
    rw [split] at ring
    have start : s.timeout thead = b := ring.1
    have member : b ∈ l.timed := by
      have here : b ∈ b :: rest := List.mem_cons_self
      rw [← split] at here
      exact (List.mem_filter.mp here).1
    have other : s.timeout thead ≠ cb := by
      rw [start]
      rintro rfl
      exact fresh member
    have prev : s.CB.tprev (s.timeout thead) ≠ 0 := by
      rw [start]
      exact shape.queues.ne_zero (shape.queues.prev_mem member).1
    have queues := shape.queues.append some fresh more labels rfl rfl
    rw [label] at queues
    simp only [Package.tAdd, if_neg empty, update_of_ne other, if_pos prev]
    exact queues

theorem hAdd {host : Nat} (some : cb ≠ 0) (fresh : cb ∉ l.hosted) :
    Shape (s.hAdd cb host) whole { l with hosted := l.hosted ++ [cb] } := by
  have labels : ∀ b ∈ l.hosted, update s.CB.hhead cb host b = s.CB.hhead b := by
    intro b inside
    rw [update_of_ne]
    rintro rfl
    exact fresh inside
  have label : update s.CB.hhead cb host cb = host := update_self ..
  refine { shape with hosts := ?_ }
  by_cases empty : (s.host host).cblist = 0
  · have hosts := shape.hosts.begin some fresh (by rw [label]; exact empty) labels
    rw [label] at hosts
    simp only [Package.hAdd, if_pos empty]
    convert hosts using 1
    funext h
    rw [cblist_set, Function.update_apply]
  have ring := shape.hosts host
  cases split : l.hosted.filter fun c => s.CB.hhead c = host with
  | nil =>
    rw [split] at ring
    exact absurd ring empty
  | cons b rest =>
    rw [split] at ring
    have start : (s.host host).cblist = b := ring.1
    have member : b ∈ l.hosted := by
      have here : b ∈ b :: rest := List.mem_cons_self
      rw [← split] at here
      exact (List.mem_filter.mp here).1
    have other : (s.host host).cblist ≠ cb := by
      rw [start]
      rintro rfl
      exact fresh member
    have more : (s.host (update s.CB.hhead cb host cb)).cblist ≠ 0 := by rwa [label]
    have hosts := shape.hosts.append some fresh more labels rfl rfl
    rw [label] at hosts
    simp only [Package.hAdd, if_neg empty, update_of_ne other]
    exact hosts

end Shape

end OpenAFS.Callback
