import Mathlib.Data.List.Perm.Basic

namespace OpenAFS.Lib

open List

/-- What a thread does from one point on. At a yield it has let go of the lock; it goes on with a reply from outside
and the state it finds. A busy thread runs on and on with the lock in its hands. -/
inductive Turn (σ ρ π α : Type) where
  | done (a : α) (s : σ)
  | yield (point : π) (s : σ) (resume : ρ → σ → Turn σ ρ π α)
  | busy
  | abort

namespace Turn

variable {σ ρ π α β τ : Type}

def bind : Turn σ ρ π α → (α → σ → Turn σ ρ π β) → Turn σ ρ π β
  | done a s, f => f a s
  | yield point s resume, f => yield point s fun r s' => (resume r s').bind f
  | busy, _ => busy
  | abort, _ => abort

/-- The thread keeps the invariant whenever it lets go of the lock, as long as it is resumed in allowed states only; it
never aborts, and it ends as promised. The list is what the other threads keep. -/
def Sound (inv : σ → List τ → Prop) (allowed : π → σ → Prop) (post : List τ → α → σ → Prop) :
    List τ → Turn σ ρ π α → Prop
  | others, done a s => post others a s
  | others, yield point s resume => ∃ own, inv s (own ++ others) ∧ ∀ r s' others', inv s' (own ++ others') → allowed point s' →
        Sound inv allowed post others' (resume r s')
  | _, busy => True
  | _, abort => False

variable {inv : σ → List τ → Prop} {allowed : π → σ → Prop} {post : List τ → α → σ → Prop}
  {post' : List τ → β → σ → Prop} {t : Turn σ ρ π α}

theorem Sound.bind {f : α → σ → Turn σ ρ π β} {others : List τ} (first : t.Sound inv allowed post others)
    (later : ∀ others a s, post others a s → (f a s).Sound inv allowed post' others) :
    (t.bind f).Sound inv allowed post' others := by
  induction t generalizing others with
  | done a s => exact later others a s first
  | yield point s resume ih =>
    obtain ⟨own, kept, after⟩ := first
    refine ⟨own, kept, ?_⟩
    intro r s' others' kept' fine
    exact ih r s' (after r s' others' kept' fine)
  | busy => trivial
  | abort => exact first

theorem Sound.weaken {promise : List τ → α → σ → Prop} {others : List τ}
    (sound : t.Sound inv allowed post others) (weaker : ∀ others a s, post others a s → promise others a s) :
    t.Sound inv allowed promise others := by
  induction t generalizing others with
  | done a s => exact weaker others a s sound
  | yield point s resume ih =>
    obtain ⟨own, kept, after⟩ := sound
    refine ⟨own, kept, ?_⟩
    intro r s' others' kept' fine
    exact ih r s' (after r s' others' kept' fine)
  | busy => trivial
  | abort => exact sound

theorem Sound.frame {kept others : List τ} (sound : t.Sound inv allowed post (kept ++ others)) :
    t.Sound inv allowed (fun others a s => post (kept ++ others) a s) others := by
  induction t generalizing others with
  | done a s => exact sound
  | yield point s resume ih =>
    obtain ⟨own, here, after⟩ := sound
    refine ⟨own ++ kept, by rwa [append_assoc], ?_⟩
    intro r s' others' here' fine
    apply ih r s'
    apply after r s' (kept ++ others') _ fine
    rwa [← append_assoc]
  | busy => trivial
  | abort => exact sound

/-- The thread run to its end with nothing done by others in the meantime; none if it does not end with so many
replies. -/
def finish : List ρ → Turn σ ρ π α → Option σ
  | _, done _ s => some s
  | r :: replies, yield _ s resume => finish replies (resume r s)
  | [], yield _ _ _ => none
  | _, busy => none
  | _, abort => none

end Turn

def Act (σ ρ π α : Type) := σ → Turn σ ρ π α

namespace Act

variable {σ ρ π α β : Type}

instance : Monad (Act σ ρ π) where
  pure a := fun s => .done a s
  bind x f := fun s => (x s).bind fun a => f a

/-- A computation that keeps the lock; none is an assertion that fails. -/
def run (f : σ → Option (α × σ)) : Act σ ρ π α := fun s =>
  match f s with
  | some (a, s') => .done a s'
  | none => .abort

def change (f : σ → Option σ) : Act σ ρ π Unit := run fun s => (f s).map fun s' => ((), s')

def pause (point : π) : Act σ ρ π ρ := fun s => .yield point s fun r s' => .done r s'

def read : Act σ ρ π σ := fun s => .done s s

def spin : Act σ ρ π α := fun _ => .busy

def when (c : Prop) [Decidable c] (x : Act σ ρ π Unit) : Act σ ρ π Unit := if c then x else pure ()

@[simp] theorem pure_apply (a : α) (s : σ) : (pure a : Act σ ρ π α) s = .done a s := rfl

@[simp] theorem bind_apply (x : Act σ ρ π α) (f : α → Act σ ρ π β) (s : σ) : (x >>= f) s = (x s).bind fun a => f a := rfl

@[simp] theorem read_apply (s : σ) : (read : Act σ ρ π σ) s = .done s s := rfl

theorem run_apply {f : σ → Option (α × σ)} {s s' : σ} {a : α} (fine : f s = some (a, s')) :
    (run f : Act σ ρ π α) s = .done a s' := by
  rw [run, fine]

theorem change_apply {f : σ → Option σ} {s s' : σ} (fine : f s = some s') : (change f : Act σ ρ π Unit) s = .done () s' :=
  run_apply (by rw [fine]; rfl)

variable {τ : Type} {inv : σ → List τ → Prop} {allowed : π → σ → Prop}

def Keeps (inv : σ → List τ → Prop) (allowed : π → σ → Prop) (x : Act σ ρ π α) (post : α → Prop) : Prop :=
  ∀ s others, inv s others → (x s).Sound inv allowed (fun others a s => inv s others ∧ post a) others

namespace Keeps

variable {x : Act σ ρ π α} {f : α → Act σ ρ π β} {post : α → Prop} {post' : β → Prop}

theorem pure {a : α} (fine : post a) : Keeps inv allowed (pure a : Act σ ρ π α) post :=
  fun _ _ here => ⟨here, fine⟩

theorem bind (first : Keeps inv allowed x post) (later : ∀ a, post a → Keeps inv allowed (f a) post') :
    Keeps inv allowed (x >>= f) post' := by
  intro s others here
  apply (first s others here).bind
  intro others a s both
  exact later a both.2 s others both.1

theorem pause (point : π) : Keeps inv allowed (pause point : Act σ ρ π ρ) fun _ => True := by
  intro s others here
  exact ⟨[], here, fun _ _ _ here' _ => ⟨here', trivial⟩⟩

theorem look {f : σ → Act σ ρ π β} (later : ∀ s, Keeps inv allowed (f s) post') :
    Keeps inv allowed (Act.read >>= f) post' := fun s others here => later s s others here

theorem spin : Keeps inv allowed (spin : Act σ ρ π α) post := fun _ _ _ => trivial

theorem run {f : σ → Option (α × σ)} (fine : ∀ s others, inv s others → ∃ a s', f s = some (a, s') ∧ inv s' others ∧ post a) :
    Keeps inv allowed (run f : Act σ ρ π α) post := by
  intro s others here
  obtain ⟨a, s', done, there, good⟩ := fine s others here
  rw [run_apply done]
  exact ⟨there, good⟩

theorem change {f : σ → Option σ} (fine : ∀ s others, inv s others → ∃ s', f s = some s' ∧ inv s' others) :
    Keeps inv allowed (change f : Act σ ρ π Unit) fun _ => True := by
  intro s others here
  obtain ⟨s', done, there⟩ := fine s others here
  rw [change_apply done]
  exact ⟨there, trivial⟩

theorem ite {c : Prop} [Decidable c] {y z : Act σ ρ π α} (pos : c → Keeps inv allowed y post)
    (neg : ¬c → Keeps inv allowed z post) : Keeps inv allowed (if c then y else z) post := by
  split
  · exact pos ‹_›
  · exact neg ‹_›

theorem when {c : Prop} [Decidable c] {x : Act σ ρ π Unit} (keeps : c → Keeps inv allowed x fun _ => True) :
    Keeps inv allowed (when c x) fun _ => True :=
  .ite keeps fun _ => .pure trivial

end Keeps

end Act

structure Waiting (σ ρ π : Type) where
  point : π
  resume : ρ → σ → Turn σ ρ π Unit

structure Shared (σ ρ π : Type) where
  state : σ
  threads : List (Waiting σ ρ π)

namespace Shared

variable {σ ρ π τ : Type}

/-- One turn of a thread: a new thread begins, a waiting one goes on, or the state changes from outside. -/
inductive Step (begins : Act σ ρ π Unit → Prop) (outside : σ → σ → Prop) (allowed : π → σ → Prop) :
    Shared σ ρ π → Shared σ ρ π → Prop
  | outside {s s' threads} : outside s s' → Step begins outside allowed ⟨s, threads⟩ ⟨s', threads⟩
  | ends {act s s' threads} : begins act → act s = .done () s' → Step begins outside allowed ⟨s, threads⟩ ⟨s', threads⟩
  | waits {act s point s' resume threads} : begins act → act s = .yield point s' resume →
      Step begins outside allowed ⟨s, threads⟩ ⟨s', ⟨point, resume⟩ :: threads⟩
  | resumeEnds {w r s s' before after} : allowed w.point s → w.resume r s = .done () s' →
      Step begins outside allowed ⟨s, before ++ w :: after⟩ ⟨s', before ++ after⟩
  | resumeWaits {w r s point s' resume before after} : allowed w.point s → w.resume r s = .yield point s' resume →
      Step begins outside allowed ⟨s, before ++ w :: after⟩ ⟨s', ⟨point, resume⟩ :: (before ++ after)⟩

variable {begins : Act σ ρ π Unit → Prop} {outside : σ → σ → Prop} {allowed : π → σ → Prop}

variable {w : Waiting σ ρ π} {s s' : σ} {threads : List (Waiting σ ρ π)} {c : Shared σ ρ π}

theorem Step.firstEnds (r : ρ) (fine : allowed w.point s) (ended : w.resume r s = .done () s') :
    Step begins outside allowed ⟨s, w :: threads⟩ ⟨s', threads⟩ :=
  @resumeEnds _ _ _ _ _ _ _ _ _ _ [] _ fine ended

theorem Step.firstWaits {point : π} {resume : ρ → σ → Turn σ ρ π Unit} (r : ρ) (fine : allowed w.point s)
    (waited : w.resume r s = .yield point s' resume) :
    Step begins outside allowed ⟨s, w :: threads⟩ ⟨s', ⟨point, resume⟩ :: threads⟩ :=
  @resumeWaits _ _ _ _ _ _ _ _ _ _ _ _ [] _ fine waited

theorem finish_waiting {t : Turn σ ρ π Unit} {replies : List ρ} (done : t.finish replies = some s)
    (free : ∀ point s, allowed point s)
    (ended : ∀ s, t = .done () s → Step begins outside allowed c ⟨s, threads⟩)
    (waited : ∀ point s resume, t = .yield point s resume → Step begins outside allowed c ⟨s, ⟨point, resume⟩ :: threads⟩) :
    Relation.ReflTransGen (Step begins outside allowed) c ⟨s, threads⟩ := by
  induction t generalizing replies c with
  | done a s' =>
    have same : s' = s := by simpa [Turn.finish] using done
    subst same
    exact .single (ended s' rfl)
  | yield point s' resume ih =>
    cases replies with
    | nil => simp [Turn.finish] at done
    | cons r replies =>
      refine .head (waited point s' resume rfl) (ih r s' done ?_ ?_)
      · exact fun s ended => .firstEnds r (free point s') ended
      · exact fun point' s resume' waited => .firstWaits r (free point s') waited
  | busy => simp [Turn.finish] at done
  | abort => simp [Turn.finish] at done

theorem finish_steps {act : Act σ ρ π Unit} {replies : List ρ} (beginning : begins act)
    (done : (act s).finish replies = some s') (free : ∀ point s, allowed point s) (threads : List (Waiting σ ρ π)) :
    Relation.ReflTransGen (Step begins outside allowed) ⟨s, threads⟩ ⟨s', threads⟩ :=
  finish_waiting done free (fun _ ended => .ends beginning ended) fun _ _ _ waited => .waits beginning waited

theorem own_of_middle {α β : Type} {R : α → β → Prop} {w : α} {before after : List α} {owns : List β}
    (each : List.Forall₂ R (before ++ w :: after) owns) : ∃ owns₁ own owns₂, owns = owns₁ ++ own :: owns₂ ∧
      List.Forall₂ R before owns₁ ∧ R w own ∧ List.Forall₂ R after owns₂ := by
  induction before generalizing owns with
  | nil =>
    obtain ⟨own, owns₂, here, later, rfl⟩ := List.forall₂_cons_left_iff.mp each
    exact ⟨[], own, owns₂, rfl, .nil, here, later⟩
  | cons v before ih =>
    obtain ⟨first, rest, head, tail, rfl⟩ := List.forall₂_cons_left_iff.mp each
    obtain ⟨owns₁, own, owns₂, rfl, earlier, here, later⟩ := ih tail
    exact ⟨first :: owns₁, own, owns₂, rfl, .cons head earlier, here, later⟩

theorem perm_middle_flatten (before : List (List τ)) (own : List τ) (after : List (List τ)) :
    (before ++ own :: after).flatten.Perm (own ++ (before ++ after).flatten) := by
  rw [flatten_append, flatten_cons, flatten_append]
  exact perm_append_comm_assoc _ _ _

def Safe (inv : σ → List τ → Prop) (allowed : π → σ → Prop) (c : Shared σ ρ π) : Prop :=
  ∃ owns : List (List τ), inv c.state owns.flatten ∧ List.Forall₂ (fun (w : Waiting σ ρ π) own =>
    ∀ r s others, inv s (own ++ others) → allowed w.point s →
      (w.resume r s).Sound inv allowed (fun others _ s => inv s others) others) c.threads owns

variable {inv : σ → List τ → Prop}

theorem Step.safe {c' : Shared σ ρ π} (step : Step begins outside allowed c c')
    (shuffle : ∀ s l l', l.Perm l' → inv s l → inv s l')
    (sound : ∀ act, begins act → ∀ s others, inv s others → (act s).Sound inv allowed (fun others _ s => inv s others) others)
    (world : ∀ s s' others, outside s s' → inv s others → inv s' others)
    (safe : Safe inv allowed c) : Safe inv allowed c' := by
  obtain ⟨owns, kept, each⟩ := safe
  cases step with
  | outside moved => exact ⟨owns, world _ _ _ moved kept, each⟩
  | ends beginning ended =>
    have here := sound _ beginning _ _ kept
    rw [ended] at here
    exact ⟨owns, here, each⟩
  | waits beginning waited =>
    have here := sound _ beginning _ _ kept
    rw [waited] at here
    obtain ⟨own, kept', after⟩ := here
    exact ⟨own :: owns, kept', .cons (fun r s others => after r s others) each⟩
  | @resumeEnds w r s s' before after fine ended =>
    obtain ⟨owns₁, own, owns₂, rfl, each₁, here, each₂⟩ := own_of_middle each
    have result := here r s _ (shuffle s _ _ (perm_middle_flatten ..) kept) fine
    rw [ended] at result
    exact ⟨owns₁ ++ owns₂, result, rel_append each₁ each₂⟩
  | @resumeWaits w r s point s' resume before after fine waited =>
    obtain ⟨owns₁, own, owns₂, rfl, each₁, here, each₂⟩ := own_of_middle each
    have result := here r s _ (shuffle s _ _ (perm_middle_flatten ..) kept) fine
    rw [waited] at result
    obtain ⟨own', kept', later⟩ := result
    refine ⟨own' :: (owns₁ ++ owns₂), kept', .cons ?_ (rel_append each₁ each₂)⟩
    exact fun r s others => later r s others

theorem run_safe {c' : Shared σ ρ π} (run : Relation.ReflTransGen (Step begins outside allowed) c c')
    (shuffle : ∀ s l l', l.Perm l' → inv s l → inv s l')
    (sound : ∀ act, begins act → ∀ s others, inv s others → (act s).Sound inv allowed (fun others _ s => inv s others) others)
    (world : ∀ s s' others, outside s s' → inv s others → inv s' others)
    (safe : Safe inv allowed c) : Safe inv allowed c' := by
  induction run with
  | refl => exact safe
  | tail _ step ih => exact step.safe shuffle sound world ih

end Shared

end OpenAFS.Lib
