import Mathlib.Algebra.BigOperators.Group.List.Basic

namespace OpenAFS.Lib

open List

variable (capacity fresh : Nat)

def pack (n : Nat) : Nat → List Nat → Option (List Nat)
  | 0, _ => none
  | _ + 1, [] => if fresh + n ≤ capacity then some [fresh + n] else none
  | limit + 1, bin :: bins =>
    if bin + n ≤ capacity then some ((bin + n) :: bins) else (pack n limit bins).map (bin :: ·)

def packAll (limit : Nat) (sizes bins : List Nat) : Option (List Nat) :=
  sizes.foldlM (fun bins n => pack capacity fresh n limit bins) bins

variable {capacity fresh}

end OpenAFS.Lib
