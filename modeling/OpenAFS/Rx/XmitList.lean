import Mathlib.Data.List.Basic

namespace OpenAFS.Rx.Xmit

open List

def jumboBufferSize : Nat := 1412

structure Packet where
  serial : UInt32
  length : Nat
  last : Bool
  deriving DecidableEq, Repr

inductive Mode where
  | sending
  | receiving
  | error
  | eof
  deriving DecidableEq, Repr

/-- What others may change while `rxi_SendList` has dropped the lock of the call. Packets are named by their places in the list. -/
structure Moment where
  acked : Nat → Bool
  (maxDgramPackets nDgramPackets cwind : Nat)
  error : Int
  fastRecoverWait : Bool
  fastRecover : Bool
  mode : Mode

/-- The call has failed, or a thread waits to start the recovery. -/
def Moment.Stops (m : Moment) : Prop := m.error ≠ 0 ∨ m.fastRecoverWait
  deriving Decidable

/-- A list that `rxi_SendList` is called for: `count` packets from the place `start` on. -/
structure Group where
  start : Nat
  count : Nat
  deriving DecidableEq, Repr

structure Lists where
  sent : List Group
  (lastP lastCnt listP cnt : Nat)

namespace Lists

def last (s : Lists) : List Group := if 0 < s.lastCnt then [⟨s.lastP, s.lastCnt⟩] else []

variable (env : Nat → Moment)

/-- The last list is sent, and the current one takes its place. An error gives what was sent before the function returned; `none` is
`osi_Panic`. -/
def flush (next : Nat) (s : Lists) : Except (Option (List Group)) Lists :=
  if 0 < s.lastCnt ∧ (env (s.sent.length + 1)).Stops then .error (some (s.sent ++ s.last))
  else .ok { sent := s.sent ++ s.last, lastP := s.listP, lastCnt := s.cnt, listP := next, cnt := 0 }

def add (p : Packet) (i : Nat) (s : Lists) : Except (Option (List Group)) Lists :=
  let m := env s.sent.length
  if m.acked i then if s.cnt ≠ 0 then .error none else .ok { s with listP := i + 1 }
  else
    let s := { s with cnt := s.cnt + 1 }
    if m.maxDgramPackets ≤ s.cnt ∨ m.nDgramPackets ≤ s.cnt ∨ m.cwind ≤ s.cnt ∨ p.serial ≠ 0 ∨ p.length ≠ jumboBufferSize then
      s.flush env (i + 1)
    else .ok s

def step (p : Packet) (i : Nat) (s : Lists) : Except (Option (List Group)) Lists :=
  if 0 < s.cnt ∧ (p.serial ≠ 0 ∨ (env s.sent.length).acked i ∨ jumboBufferSize < p.length) then (s.flush env i).bind (add env p i)
  else s.add env p i

def loop : List Packet → Nat → Lists → Except (Option (List Group)) Lists
  | [], _, s => .ok s
  | p :: rest, i, s => (s.step env p i).bind (loop rest (i + 1))

end Lists

def Forced (list : List Packet) (m : Moment) : Prop :=
  list.getLast?.any Packet.last ∨ m.mode = .receiving ∨ m.mode = .eof ∨ m.fastRecover
  deriving Decidable

variable (env : Nat → Moment)

/-- The lists that are sent. `env k` is the moment after the first `k` of them. -/
def sendXmitList (list : List Packet) : Option (List Group) :=
  match Lists.loop env list 0 ⟨[], 0, 0, 0, 0⟩ with
  | .error sent => sent
  | .ok s =>
    let m := env s.sent.length
    let sent := s.sent ++ s.last
    if Forced list m then
      let morePackets := 0 < s.cnt ∧ ¬ m.acked s.listP
      if 0 < s.lastCnt ∧ (env sent.length).Stops then some sent
      else some (if morePackets then sent ++ [⟨s.listP, s.cnt⟩] else sent)
    else some sent

def Group.Has (g : Group) (i : Nat) : Prop := g.start ≤ i ∧ i < g.start + g.count

structure Jumbogram (list : List Packet) (m : Moment) (g : Group) : Prop where
  packets : ∀ i p, g.Has i → list[i]? = some p →
    p.serial = 0 ∧ p.length ≤ jumboBufferSize ∧ (i + 1 < g.start + g.count → p.length = jumboBufferSize)
  limits : g.count ≤ m.maxDgramPackets ∧ g.count ≤ m.nDgramPackets ∧ g.count ≤ m.cwind

structure Group.Sound (list : List Packet) (m : Moment) (g : Group) : Prop where
  some : 0 < g.count
  unacked : ∀ i, g.Has i → m.acked i = false
  jumbogram : 1 < g.count → Jumbogram list m g

/-- The packets from `start` on would be another group, but for the packets that are to follow. -/
structure Incomplete (list : List Packet) (m : Moment) (start : Nat) : Prop where
  unacked : ∀ i, start ≤ i → i < list.length → m.acked i = false
  full : ∀ i p, start ≤ i → list[i]? = some p → p.length = jumboBufferSize ∧ p.serial = 0
  limits : list.length - start < m.maxDgramPackets ∧ list.length - start < m.nDgramPackets ∧ list.length - start < m.cwind

/-- A group is made while the group before it waits to be sent. -/
structure Ordered (list : List Packet) (stop : Nat) (groups : List Group) : Prop where
  ordered : groups.Pairwise fun a b => a.start + a.count ≤ b.start
  inside : ∀ g ∈ groups, g.start + g.count ≤ stop
  sound : ∀ k g, groups[k]? = some g → Group.Sound list (env (k - 1)) g

/-- Each packet of a list is sent at most once and in order, and if the function does not return early, all are but those that were
acked, and those that are held back at the end. -/
structure Batched (list : List Packet) (sent : List Group) : Prop extends Ordered env list list.length sent where
  complete : (∀ k, 0 < k → k ≤ sent.length → ¬ (env k).Stops) → ∀ i < list.length,
    (∃ g ∈ sent, g.Has i) ∨ (∃ k ≤ sent.length, (env k).acked i) ∨
      ¬ Forced list (env (sent.length - 1)) ∧ ∃ start ≤ i, Incomplete list (env (sent.length - 1)) start

structure Waiting (list : List Packet) (s : Lists) : Prop extends Ordered env list s.listP (s.sent ++ s.last) where
  early : s.lastCnt = 0 → s.sent = []
  covered : ∀ j < s.listP, (∃ g ∈ s.sent ++ s.last, g.Has j) ∨ ∃ k ≤ s.sent.length, (env k).acked j
  stops : ∀ k, 0 < k → k ≤ s.sent.length → ¬ (env k).Stops

/-- The loop before packet `i`. -/
structure Batching (list : List Packet) (i : Nat) (s : Lists) : Prop extends Waiting env list s where
  place : s.listP + s.cnt = i
  unacked : ∀ j, s.listP ≤ j → j < i → (env s.sent.length).acked j = false
  full : ∀ j p, s.listP ≤ j → j < i → list[j]? = some p → p.length = jumboBufferSize ∧ p.serial = 0
  limits : 0 < s.cnt → s.cnt < (env s.sent.length).maxDgramPackets ∧ s.cnt < (env s.sent.length).nDgramPackets ∧
    s.cnt < (env s.sent.length).cwind

/-- The loop goes on before packet `i`, or the function has returned. -/
def Goes (list : List Packet) (i : Nat) : Except (Option (List Group)) Lists → Prop
  | .ok s => Batching env list i s
  | .error (some sent) => Batched env list sent
  | .error none => False

variable {env} {list : List Packet} {s : Lists} {i j : Nat} {p : Packet}

theorem Goes.bind {r : Except (Option (List Group)) Lists} {f : Lists → Except (Option (List Group)) Lists} (goes : Goes env list i r)
    (next : ∀ s, r = .ok s → Batching env list i s → Goes env list j (f s)) : Goes env list j (r.bind f) := by
  cases r with
  | ok s => exact next s rfl goes
  | error sent =>
    cases sent with
    | none => exact goes
    | some sent => exact goes

theorem length_last : s.last.length = if 0 < s.lastCnt then 1 else 0 := by
  unfold Lists.last
  split <;> rfl

theorem Ordered.mono {a b : Nat} {groups : List Group} (o : Ordered env list a groups) (more : a ≤ b) : Ordered env list b groups :=
  ⟨o.ordered, fun g member => Nat.le_trans (o.inside g member) more, o.sound⟩

theorem Waiting.moment (w : Waiting env list s) : (s.sent ++ s.last).length - 1 = s.sent.length := by
  rw [length_append, length_last]
  split
  · rfl
  · rw [w.early (by omega)]
    rfl

theorem Waiting.append (w : Waiting env list s) {g : Group} (first : s.listP ≤ g.start) (sound : Group.Sound list (env s.sent.length) g) :
    Ordered env list (g.start + g.count) (s.sent ++ s.last ++ [g]) := by
  refine ⟨pairwise_append.mpr ⟨w.ordered, pairwise_singleton .., fun a old b new => ?_⟩, fun a member => ?_, fun k a here => ?_⟩
  · rw [mem_singleton.mp new]
    exact Nat.le_trans (w.inside a old) first
  · rcases mem_append.mp member with old | new
    · exact Nat.le_trans (w.inside a old) (by omega)
    · exact Nat.le_of_eq (by rw [mem_singleton.mp new])
  by_cases old : k < (s.sent ++ s.last).length
  · rw [getElem?_append_left old] at here
    exact w.sound k a here
  rw [getElem?_append_right (by omega)] at here
  have last : k = (s.sent ++ s.last).length := by
    by_contra other
    rw [getElem?_eq_none (by rw [length_singleton]; omega)] at here
    cases here
  rw [last, Nat.sub_self] at here
  cases here
  rwa [last, w.moment]

theorem Waiting.returned (w : Waiting env list s) (inside : s.listP ≤ list.length) (stop : (env (s.sent ++ s.last).length).Stops)
    (some : 0 < s.lastCnt) : Batched env list (s.sent ++ s.last) := by
  refine ⟨w.toOrdered.mono inside, fun going => absurd stop (going _ ?_ (Nat.le_refl _))⟩
  rw [length_append, length_last, if_pos some]
  omega

theorem Waiting.flush (w : Waiting env list s) {next : Nat} (inside : next ≤ list.length) (place : s.listP + s.cnt = next)
    (sound : Group.Sound list (env s.sent.length) ⟨s.listP, s.cnt⟩) : Goes env list next (s.flush env next) := by
  have more : (s.sent ++ s.last).length = s.sent.length + if 0 < s.lastCnt then 1 else 0 := by rw [length_append, length_last]
  unfold Lists.flush
  split
  · next returns =>
    refine w.returned (by omega) ?_ returns.1
    rw [more, if_pos returns.1]
    exact returns.2
  next goes =>
  have some : 0 < s.cnt := sound.some
  have last : (Lists.mk (s.sent ++ s.last) s.listP s.cnt next 0).last = [⟨s.listP, s.cnt⟩] := if_pos some
  refine ⟨⟨?_, fun none => ?_, fun j before => ?_, fun k positive low => ?_⟩, rfl, fun j low high => ?_, fun j p low high => ?_, fun none => ?_⟩
  · rw [last, ← place]
    exact w.append (Nat.le_refl _) sound
  · have none : s.cnt = 0 := none
    omega
  · rw [last]
    by_cases old : j < s.listP
    · rcases w.covered j old with ⟨g, member, has⟩ | ⟨k, low, acked⟩
      · exact .inl ⟨g, mem_append_left _ member, has⟩
      · exact .inr ⟨k, Nat.le_trans low (by dsimp only; omega), acked⟩
    · have before : j < next := before
      exact .inl ⟨_, mem_append_right _ (mem_singleton_self _), Nat.le_of_not_lt old, by dsimp only; omega⟩
  · have low : k ≤ (s.sent ++ s.last).length := low
    by_cases before : k ≤ s.sent.length
    · exact w.stops k positive before
    split at more
    · next waits =>
      have this : k = s.sent.length + 1 := by omega
      rw [this]
      exact fun stop => goes ⟨waits, stop⟩
    · omega
  · exact absurd low (Nat.not_le_of_lt high)
  · exact absurd low (Nat.not_le_of_lt high)
  · cases none

theorem Batching.add (b : Batching env list i s) (here : list[i]? = some p)
    (joins : 0 < s.cnt → (env s.sent.length).acked i = false ∧ p.serial = 0 ∧ p.length ≤ jumboBufferSize) :
    Goes env list (i + 1) (s.add env p i) := by
  obtain ⟨inside, -⟩ := List.getElem?_eq_some_iff.mp here
  have place := b.place
  unfold Lists.add
  dsimp only
  split
  · next acked =>
    have none : ¬ 0 < s.cnt := fun some => by rw [(joins some).1] at acked; cases acked
    rw [if_neg (by omega)]
    refine ⟨⟨b.toOrdered.mono (by dsimp only; omega), b.early, fun j before => ?_, b.stops⟩, by dsimp only; omega, fun j low high => ?_, fun j p low high => ?_,
      fun some => absurd some none⟩
    · by_cases old : j < s.listP
      · exact b.covered j old
      have before : j < i + 1 := before
      have this : j = i := by omega
      rw [this]
      exact .inr ⟨s.sent.length, Nat.le_refl _, acked⟩
    · exact absurd low (Nat.not_le_of_lt high)
    · exact absurd low (Nat.not_le_of_lt high)
  next unacked =>
  have unacked : ∀ j, s.listP ≤ j → j < i + 1 → (env s.sent.length).acked j = false := fun j low high => by
    by_cases this : j = i
    · rw [this]
      exact Bool.not_eq_true _ ▸ unacked
    · exact b.unacked j low (by omega)
  have waiting : Waiting env list { s with cnt := s.cnt + 1 } := ⟨b.toOrdered, b.early, b.covered, b.stops⟩
  split
  · refine waiting.flush inside (by dsimp only; omega) ⟨Nat.succ_pos _, fun j has => ?_, fun many => ?_⟩
    · exact unacked j has.1 (by have := has.2; dsimp only at this; omega)
    have some : 0 < s.cnt := by dsimp only at many; omega
    obtain ⟨-, first, fits⟩ := joins some
    have limits := b.limits some
    refine ⟨fun j q has there => ?_, by dsimp only; omega⟩
    obtain ⟨low, high⟩ := has
    dsimp only at low high
    by_cases this : j = i
    · rw [this, here] at there
      cases there
      exact ⟨first, fits, fun before => by dsimp only at before; omega⟩
    · obtain ⟨full, first⟩ := b.full j q low (by omega) there
      exact ⟨first, Nat.le_of_eq full, fun _ => full⟩
  · next small =>
    simp only [not_or, Nat.not_le, not_not] at small
    obtain ⟨maxDgramPackets, nDgramPackets, cwind, first, full⟩ := small
    refine ⟨waiting, by dsimp only; omega, unacked, fun j q low high there => ?_,
      fun _ => ⟨maxDgramPackets, nDgramPackets, cwind⟩⟩
    by_cases this : j = i
    · rw [this, here] at there
      cases there
      exact ⟨full, first⟩
    · exact b.full j q low (by omega) there

theorem Batching.current (b : Batching env list i s) (some : 0 < s.cnt) : Group.Sound list (env s.sent.length) ⟨s.listP, s.cnt⟩ := by
  have place := b.place
  obtain ⟨maxDgramPackets, nDgramPackets, cwind⟩ := b.limits some
  refine ⟨some, fun j has => b.unacked j has.1 (place ▸ has.2), fun _ => ⟨fun j q has there => ?_,
    Nat.le_of_lt maxDgramPackets, Nat.le_of_lt nDgramPackets, Nat.le_of_lt cwind⟩⟩
  obtain ⟨full, first⟩ := b.full j q has.1 (place ▸ has.2) there
  exact ⟨first, Nat.le_of_eq full, fun _ => full⟩

theorem Batching.step (b : Batching env list i s) (here : list[i]? = some p) : Goes env list (i + 1) (s.step env p i) := by
  obtain ⟨inside, -⟩ := List.getElem?_eq_some_iff.mp here
  have place := b.place
  unfold Lists.step
  split
  · next closes =>
    refine (b.toWaiting.flush (Nat.le_of_lt inside) place (b.current closes.1)).bind fun s' went flushed => flushed.add here fun some => ?_
    unfold Lists.flush at went
    split at went
    · cases went
    · cases went
      exact absurd some (Nat.lt_irrefl 0)
  · next stays =>
    refine b.add here fun some => ?_
    simp only [not_and_or, not_or, Nat.not_lt, not_not, Bool.not_eq_true] at stays
    obtain none | ⟨first, unacked, fits⟩ := stays
    · omega
    · exact ⟨unacked, first, fits⟩

theorem Batching.loop (rest : List Packet) (b : Batching env list i s) (inside : i ≤ list.length) (left : list.drop i = rest) :
    Goes env list list.length (Lists.loop env rest i s) := by
  induction rest generalizing i s with
  | nil =>
    have ended : i = list.length := Nat.le_antisymm inside (drop_eq_nil_iff.mp left)
    rwa [← ended]
  | cons p rest ih =>
    have here : list[i]? = some p := by
      rw [← head?_drop, left]
      rfl
    obtain ⟨inside, -⟩ := List.getElem?_eq_some_iff.mp here
    exact (b.step here).bind fun s' _ stepped => ih stepped inside (by rw [← drop_drop, left]; rfl)

theorem Batching.start : Batching env list 0 ⟨[], 0, 0, 0, 0⟩ := by
  have none {j : Nat} (before : j < 0) : False := Nat.not_lt_zero j before
  refine ⟨⟨⟨Pairwise.nil, fun g member => (not_mem_nil member).elim, fun k g here => nomatch here⟩, fun _ => rfl,
    fun j before => (none before).elim, fun k positive low => absurd low (Nat.not_le_of_lt positive)⟩, rfl,
    fun j _ before => (none before).elim, fun j p _ before => (none before).elim, fun some => (none some).elim⟩

theorem Batching.finish (b : Batching env list list.length s) :
    Batched env list (if Forced list (env s.sent.length) ∧ 0 < s.cnt then s.sent ++ s.last ++ [⟨s.listP, s.cnt⟩] else s.sent ++ s.last) := by
  have place := b.place
  have more : s.sent.length ≤ (s.sent ++ s.last).length := by rw [length_append]; omega
  split
  · next ends =>
    have appended := b.append (Nat.le_refl _) (b.current ends.2)
    rw [place] at appended
    refine ⟨appended, fun _ i inside => ?_⟩
    by_cases old : i < s.listP
    · rcases b.covered i old with ⟨g, member, has⟩ | ⟨k, low, acked⟩
      · exact .inl ⟨g, mem_append_left _ member, has⟩
      · exact .inr (.inl ⟨k, by rw [length_append]; omega, acked⟩)
    · exact .inl ⟨_, mem_append_right _ (mem_singleton_self _), Nat.le_of_not_lt old, by dsimp only; omega⟩
  next holds =>
  refine ⟨b.toOrdered.mono (by omega), fun _ i inside => ?_⟩
  by_cases old : i < s.listP
  · rcases b.covered i old with sent | ⟨k, low, acked⟩
    · exact .inl sent
    · exact .inr (.inl ⟨k, Nat.le_trans low more, acked⟩)
  have some : 0 < s.cnt := by omega
  have left : list.length - s.listP = s.cnt := by omega
  rw [b.moment]
  refine .inr (.inr ⟨fun forced => holds ⟨forced, some⟩, s.listP, Nat.le_of_not_lt old, b.unacked, fun j p low there => ?_, ?_⟩)
  · obtain ⟨inside, -⟩ := List.getElem?_eq_some_iff.mp there
    exact b.full j p low inside there
  · rw [left]
    exact b.limits some

/-- Whatever others do while packets are sent, the packets of a list are sent in groups that are allowed, each once and in order, but
for those that were acked, those that are held back because more are to follow, and the rest of a list that the function leaves. -/
theorem xmit_batched (env : Nat → Moment) (list : List Packet) :
    ∃ sent, sendXmitList env list = some sent ∧ Batched env list sent := by
  have looped := @Batching.start env list |>.loop list (Nat.zero_le _) rfl
  unfold sendXmitList
  cases went : Lists.loop env list 0 ⟨[], 0, 0, 0, 0⟩ with
  | error sent =>
    rw [went] at looped
    cases sent with
    | none => exact looped.elim
    | some sent => exact ⟨sent, rfl, looped⟩
  | ok s =>
    rw [went] at looped
    have b : Batching env list list.length s := looped
    have place := b.place
    dsimp only
    by_cases forced : Forced list (env s.sent.length)
    · rw [if_pos forced]
      by_cases stop : 0 < s.lastCnt ∧ (env (s.sent ++ s.last).length).Stops
      · rw [if_pos stop]
        exact ⟨_, rfl, b.returned (by omega) stop.2 stop.1⟩
      rw [if_neg stop]
      have same : (0 < s.cnt ∧ ¬ (env s.sent.length).acked s.listP) ↔ Forced list (env s.sent.length) ∧ 0 < s.cnt := by
        refine ⟨fun more => ⟨forced, more.1⟩, fun more => ⟨more.2, ?_⟩⟩
        rw [b.unacked s.listP (Nat.le_refl _) (by omega)]
        exact Bool.false_ne_true
      refine ⟨_, rfl, ?_⟩
      simp only [same]
      exact b.finish
    · rw [if_neg forced]
      have held := b.finish
      rw [if_neg fun both => forced both.1] at held
      exact ⟨_, rfl, held⟩

/-- The call fails while its first packet is sent. -/
def failing (k : Nat) : Moment := ⟨fun _ => false, 1, 1, 1, if k = 0 then 0 else -1, false, false, .receiving⟩

def threePackets : List Packet := [⟨0, 1412, false⟩, ⟨0, 1412, false⟩, ⟨0, 100, true⟩]

theorem failed_call_leaves_packets :
    ¬ ∀ (env : Nat → Moment) (list : List Packet), (∀ k, Forced list (env k)) → (∀ k i, (env k).acked i = false) →
      ∃ sent, sendXmitList env list = some sent ∧ ∀ i < list.length, ∃ g ∈ sent, g.Has i := by
  intro all
  obtain ⟨sent, went, handed⟩ := all failing threePackets (fun _ => .inr (.inl rfl)) fun _ _ => rfl
  cases went
  obtain ⟨g, member, has⟩ := handed 1 (by decide)
  rw [mem_singleton.mp member] at has
  exact absurd has.2 (by decide)

end OpenAFS.Rx.Xmit
