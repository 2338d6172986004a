import Mathlib.Tactic

/-! A bounded mailbox. When it is full the oldest message goes, so that what it holds is the newest
part of what was sent since it was emptied. -/
namespace Library
variable {α : Type} {capacity : ℕ} {l : List α}

/-- The last messages, as many as fit. -/
def newest (capacity : ℕ) (l : List α) : List α := l.drop (l.length-capacity)

@[simp] theorem newest_nil : newest capacity ([] : List α) = [] := List.drop_nil

@[simp] theorem length_newest : (newest capacity l).length = min l.length capacity := by
  rw [newest,List.length_drop]
  omega

theorem newest_eq_self (h : l.length ≤ capacity) : newest capacity l = l := by
  rw [newest,Nat.sub_eq_zero_of_le h,List.drop_zero]

theorem newest_eq_nil_iff (pos : 0 < capacity) : newest capacity l = [] ↔ l = [] := by
  rw [← List.length_eq_zero_iff,length_newest,← List.length_eq_zero_iff]
  omega

theorem newest_append_room (h : l.length < capacity) (a : α) :
    newest capacity (l ++ [a]) = newest capacity l ++ [a] := by
  rw [newest_eq_self h.le,newest_eq_self (by simpa using h)]

/-- A full mailbox loses its oldest message to the new one. -/
theorem newest_append_full (pos : 0 < capacity) (h : capacity ≤ l.length) (a : α) :
    newest capacity (l ++ [a]) = (newest capacity l).tail ++ [a] := by
  have hd : (l ++ [a]).length-capacity = l.length-capacity+1 := by
    rw [List.length_append,List.length_singleton]
    omega
  rw [newest,newest,hd,List.tail_drop,List.drop_append_of_le_length (by omega)]

end Library
