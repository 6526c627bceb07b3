import Mathlib.Tactic.TypeStar

namespace OpenAFS.Lib

variable {ε σ α β : Type}

/-- Run from `s`, the computation returns with `post`, or stops with `stop`. -/
def Ensures (x : EStateM ε σ α) (post : α → σ → Prop) (stop : ε → σ → Prop) (s : σ) : Prop :=
  match x s with
  | .ok a s' => post a s'
  | .error e s' => stop e s'

def whenever (c : Prop) [Decidable c] (x : EStateM ε σ Unit) : EStateM ε σ Unit := if c then x else pure ()

def onError (x : EStateM ε σ α) (undo : σ → σ) : EStateM ε σ α := fun s =>
  match x s with
  | .ok a s' => .ok a s'
  | .error e s' => .error e (undo s')

namespace Ensures

variable {x : EStateM ε σ α} {f : α → EStateM ε σ β} {s : σ}
  {post post' : α → σ → Prop} {later : β → σ → Prop} {stop stop' : ε → σ → Prop}

@[simp] theorem pure (a : α) : Ensures (pure a : EStateM ε σ α) post stop s ↔ post a s := Iff.rfl

@[simp] theorem get {post : σ → σ → Prop} : Ensures (get : EStateM ε σ σ) post stop s ↔ post s s := Iff.rfl

@[simp] theorem set {post : PUnit → σ → Prop} (t : σ) : Ensures (set t : EStateM ε σ PUnit) post stop s ↔ post ⟨⟩ t := Iff.rfl

@[simp] theorem modify {post : Unit → σ → Prop} (g : σ → σ) :
    Ensures (modify g : EStateM ε σ Unit) post stop s ↔ post () (g s) := Iff.rfl

@[simp] theorem throw (e : ε) : Ensures (throw e : EStateM ε σ α) post stop s ↔ stop e s := Iff.rfl

@[simp] theorem bind : Ensures (x >>= f) later stop s ↔ Ensures x (fun a => Ensures (f a) later stop) stop s := by
  show (match EStateM.bind x f s with | .ok b s' => later b s' | .error e s' => stop e s') ↔ _
  unfold Ensures EStateM.bind
  cases x s <;> rfl

@[simp] theorem map {g : α → β} : Ensures (g <$> x) later stop s ↔ Ensures x (fun a => later (g a)) stop s := by
  show (match EStateM.map g x s with | .ok b s' => later b s' | .error e s' => stop e s') ↔ _
  unfold Ensures EStateM.map
  cases x s <;> rfl

theorem ite {c : Prop} [Decidable c] {y : EStateM ε σ α} :
    Ensures (if c then x else y) post stop s ↔ (c → Ensures x post stop s) ∧ (¬ c → Ensures y post stop s) := by
  by_cases h : c <;> simp [h]

theorem whenever {c : Prop} [Decidable c] {y : EStateM ε σ Unit} {post : Unit → σ → Prop} :
    Ensures (whenever c y) post stop s ↔ (c → Ensures y post stop s) ∧ (¬ c → post () s) := ite

@[simp] theorem onError {undo : σ → σ} :
    Ensures (onError x undo) post stop s ↔ Ensures x post (fun e s' => stop e (undo s')) s := by
  unfold Ensures Lib.onError
  cases x s <;> rfl

theorem mono (ensured : Ensures x post stop s) (returned : ∀ a s', post a s' → post' a s')
    (stopped : ∀ e s', stop e s' → stop' e s') : Ensures x post' stop' s := by
  unfold Ensures at ensured ⊢
  cases h : x s with
  | ok a s' =>
    rw [h] at ensured
    exact returned a s' ensured
  | error e s' =>
    rw [h] at ensured
    exact stopped e s' ensured

theorem get_then {f : σ → EStateM ε σ β} (next : Ensures (f s) later stop s) : Ensures (MonadState.get >>= f) later stop s :=
  bind.mpr next

theorem mono_then (ensured : Ensures x post stop' s) (returned : ∀ a s', post a s' → Ensures (f a) later stop s')
    (stopped : ∀ e s', stop' e s' → stop e s') : Ensures (x >>= f) later stop s :=
  bind.mpr (ensured.mono returned stopped)

end Ensures

end OpenAFS.Lib
