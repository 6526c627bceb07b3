import OpenAFS.Ubik.CommitImage

namespace OpenAFS.Ubik

open List

def SameEffect (a b : List DiskOp) : Prop :=
  (∀ w, written a w = written b w) ∧ ∀ f, mergedTrunc a f = mergedTrunc b f

variable (a : List DiskOp)

theorem SameEffect.refl : SameEffect a a := ⟨fun _ => rfl, fun _ => rfl⟩

theorem SameEffect.trans {a b c : List DiskOp} (first : SameEffect a b) (second : SameEffect b c) : SameEffect a c :=
  ⟨fun w => (first.1 w).trans (second.1 w), fun f => (first.2 f).trans (second.2 f)⟩

theorem written_append_list (b : List DiskOp) (w : Image) : written (a ++ b) w = written b (written a w) :=
  foldl_append

theorem mergedTrunc_append_list (b : List DiskOp) (f : Nonneg) :
    mergedTrunc (a ++ b) f = b.foldl (DiskOp.truncs f) (mergedTrunc a f) :=
  foldl_append

theorem SameEffect.append {a b : List DiskOp} (same : SameEffect a b) (c : List DiskOp) : SameEffect (a ++ c) (b ++ c) := by
  constructor
  · intro w
    rw [written_append_list, written_append_list, same.1]
  · intro f
    rw [mergedTrunc_append_list, mergedTrunc_append_list, same.2]

theorem SameEffect.committed {a b : List DiskOp} (same : SameEffect a b) (w : Image) : committed a w = committed b w := by
  unfold Ubik.committed
  simp only [same.1, same.2]

def AllWrites (ops : List DiskOp) : Prop := ∀ op ∈ ops, ∃ file pos bytes short, op = .write file pos bytes short

variable (ops : List DiskOp)

theorem written_congr {v w : Image} {f : Nonneg} {p : Nat} (same : v f p = w f p) :
    written ops v f p = written ops w f p := by
  induction ops using List.reverseRecOn with
  | nil => exact same
  | append_singleton ops op ih =>
    rw [written_append, written_append]
    cases op with
    | write file pos bytes short => simp only [DiskOp.writes, Image.write, ih]
    | truncate file length => exact ih

theorem written_twice (w : Image) : written ops (written ops w) = written ops w := by
  funext f p
  induction ops using List.reverseRecOn with
  | nil => rfl
  | append_singleton ops op ih =>
    rw [written_append, written_append]
    cases op with
    | write file pos bytes short =>
      simp only [DiskOp.writes]
      by_cases covered : f = file ∧ pos.val ≤ p ∧ p < pos.val + bytes.length
      · simp only [Image.write, if_pos covered]
      · have passed : ∀ v : Image, v.write file pos.val bytes f p = v f p := fun v => by
          simp only [Image.write, if_neg covered]
        rw [passed, passed, written_congr ops (passed (written ops w)), ih]
    | truncate file length =>
      exact ih

def reach (ops : List DiskOp) (f : Nonneg) : Nat :=
  ops.foldl (fun n op => match op with
    | .write file pos bytes _ => if file = f then max n (pos.val + bytes.length) else n
    | .truncate _ _ => n) 0

theorem reach_append (file pos : Nonneg) (bytes : List UInt8) (short : bytes.length < 2 ^ 31)
    (f : Nonneg) : reach (ops ++ [.write file pos bytes short]) f =
      if file = f then max (reach ops f) (pos.val + bytes.length) else reach ops f := by
  rw [reach, foldl_append]
  rfl

theorem truncs_writes {ops : List DiskOp} (writes : AllWrites ops) (f : Nonneg) (t : Option Nat) :
    ops.foldl (DiskOp.truncs f) t = t.map fun n => max n (reach ops f) := by
  induction ops using List.reverseRecOn with
  | nil => cases t <;> simp [reach]
  | append_singleton ops op ih =>
    obtain ⟨file, pos, bytes, short, rfl⟩ := writes op (by simp)
    rw [foldl_append, ih fun op inside => writes op (mem_append_left _ inside), reach_append]
    cases t with
    | none => simp [DiskOp.truncs]
    | some n =>
      by_cases same : file = f
      · simp [DiskOp.truncs, same, Nat.max_assoc]
      · simp [DiskOp.truncs, same]

theorem sameEffect_again {pre batch : List DiskOp} (start : pre <+: batch) (writes : AllWrites batch)
    (ops : List DiskOp) : SameEffect (ops ++ pre ++ batch) (ops ++ batch) := by
  obtain ⟨rest, rfl⟩ := start
  have early : AllWrites pre := fun op inside => writes op (mem_append_left _ inside)
  rw [← append_assoc, ← append_assoc]
  apply SameEffect.append
  constructor
  · intro w
    rw [written_append_list, written_append_list, written_twice]
  intro f
  rw [mergedTrunc_append_list, mergedTrunc_append_list, truncs_writes early, truncs_writes early, Option.map_map]
  congr 1
  funext n
  simp only [Function.comp_apply]
  omega

end OpenAFS.Ubik
