import Mathlib.Data.Option.Basic
import Mathlib.Data.UInt

namespace OpenAFS.Lib

/-- A machine: the states it may start in, and the one step an action makes of a state, if it is enabled. -/
structure Machine (σ α : Type*) where
  start : σ → Prop
  step : σ → α → Option σ

namespace Machine

variable {σ α : Type*} (M : Machine σ α)

/-- The states of the runs all of whose steps meet `guard` in the state they are taken from. -/
inductive ReachWhere (guard : σ → α → Prop) : σ → Prop
  | start {s : σ} (h : M.start s) : ReachWhere guard s
  | step {s s' : σ} {a : α} (before : ReachWhere guard s) (met : guard s a) (taken : M.step s a = some s') : ReachWhere guard s'

def Reach (s : σ) : Prop := M.ReachWhere (fun _ _ => True) s

variable {M} {guard : σ → α → Prop}

theorem ReachWhere.invariant {inv : σ → Prop} (base : ∀ s, M.start s → inv s)
    (keep : ∀ s a s', inv s → guard s a → M.step s a = some s' → inv s')
    {s : σ} (reached : M.ReachWhere guard s) : inv s := by
  induction reached with
  | start h => exact base _ h
  | step _ met taken ih => exact keep _ _ _ ih met taken

theorem ReachWhere.invariant_using {inv : σ → Prop} (base : ∀ s, M.start s → inv s)
    (keep : ∀ s a s', M.ReachWhere guard s → inv s → guard s a → M.step s a = some s' → inv s')
    {s : σ} (reached : M.ReachWhere guard s) : inv s := by
  induction reached with
  | start h => exact base _ h
  | step before met taken ih => exact keep _ _ _ before ih met taken

theorem ReachWhere.mono {weaker : σ → α → Prop} (imp : ∀ s a, guard s a → weaker s a)
    {s : σ} (reached : M.ReachWhere guard s) : M.ReachWhere weaker s := by
  induction reached with
  | start h => exact .start h
  | step _ met taken ih => exact .step ih (imp _ _ met) taken

variable (M)

def runWhere (guard : σ → α → Prop) [∀ s a, Decidable (guard s a)] (s : σ) : List α → Option σ
  | [] => some s
  | a :: rest => if guard s a then (M.step s a).bind fun s' => runWhere guard s' rest else none

def run (s : σ) (acts : List α) : Option σ := M.runWhere (fun _ _ => True) s acts

variable {M}

theorem ReachWhere.runWhere [∀ s a, Decidable (guard s a)] {s s' : σ} {acts : List α}
    (reached : M.ReachWhere guard s) (ran : M.runWhere guard s acts = some s') : M.ReachWhere guard s' := by
  induction acts generalizing s with
  | nil => cases ran; exact reached
  | cons a rest ih =>
    simp only [Machine.runWhere, Option.ite_none_right_eq_some, Option.bind_eq_some_iff] at ran
    obtain ⟨met, middle, taken, later⟩ := ran
    exact ih (.step reached met taken) later

theorem Reach.run {s s' : σ} {acts : List α} (reached : M.Reach s) (ran : M.run s acts = some s') : M.Reach s' :=
  ReachWhere.runWhere reached ran

end Machine

end OpenAFS.Lib
