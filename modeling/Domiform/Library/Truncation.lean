import Mathlib.Algebra.BigOperators.Group.List.Basic
import Mathlib.Tactic

/-! Measuring a length piece by piece in whole units, dropping the rest of each piece. What is
lost is the whole units among the rests. -/
namespace Library
variable {unit : ℕ}

/-- The whole units of each piece, added up. -/
def wholes (unit : ℕ) (pieces : List ℕ) : ℕ := (pieces.map (· / unit)).sum

/-- The rests, added up. -/
def rests (unit : ℕ) (pieces : List ℕ) : ℕ := (pieces.map (· % unit)).sum

@[simp] theorem wholes_nil : wholes unit [] = 0 := rfl

@[simp] theorem rests_nil : rests unit [] = 0 := rfl

theorem wholes_concat (pieces : List ℕ) (d : ℕ) :
    wholes unit (pieces ++ [d]) = wholes unit pieces+d/unit := by
  simp [wholes]

theorem rests_concat (pieces : List ℕ) (d : ℕ) :
    rests unit (pieces ++ [d]) = rests unit pieces+d%unit := by
  simp [rests]

theorem sum_eq_wholes_add_rests (unit : ℕ) (pieces : List ℕ) :
    pieces.sum = unit*wholes unit pieces+rests unit pieces := by
  induction pieces using List.reverseRecOn with
  | nil => simp
  | append_singleton pieces d ih =>
    have hd := Nat.div_add_mod d unit
    rw [List.sum_append,List.sum_singleton,wholes_concat,rests_concat,ih,Nat.mul_add]
    omega

/-- The measure falls short of the length by the whole units among the rests. -/
theorem sum_div_eq (h : 0 < unit) (pieces : List ℕ) :
    pieces.sum/unit = wholes unit pieces+rests unit pieces/unit := by
  rw [sum_eq_wholes_add_rests unit pieces,Nat.mul_add_div h]

theorem wholes_eq_sum_div_iff (h : 0 < unit) {pieces : List ℕ} :
    wholes unit pieces = pieces.sum/unit ↔ rests unit pieces < unit := by
  rw [sum_div_eq h,left_eq_add,Nat.div_eq_zero_iff]
  omega

end Library
