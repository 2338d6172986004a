import Mathlib.Data.List.Basic
import Mathlib.Tactic

/-! Workers that each are in one phase, counted by phase. One worker moving from a phase to another
changes a count by what the two phases contribute. -/
namespace Library
variable {P : Type} (p : P → Bool)

/-- How many workers are in a phase of the given kind. -/
abbrev inPhase (workers : List P) : ℕ := workers.countP p

theorem inPhase_set {workers : List P} {i : ℕ} {a : P} (b : P) (h : workers[i]? = some a) :
    inPhase p (workers.set i b)+(if p a then 1 else 0) = inPhase p workers+if p b then 1 else 0 := by
  obtain ⟨hi,rfl⟩ := List.getElem?_eq_some_iff.mp h
  have hpos : p workers[i] = true → 0 < workers.countP p :=
    fun hp => List.countP_pos_iff.mpr ⟨_,List.getElem_mem hi,hp⟩
  rw [inPhase,inPhase,List.countP_set hi]
  split_ifs with ha hb <;> simp_all

theorem inPhase_concat (workers : List P) (a : P) :
    inPhase p (workers ++ [a]) = inPhase p workers+if p a then 1 else 0 := by
  rw [inPhase,List.countP_append,List.countP_singleton]

/-- Somebody is in a phase that is counted. -/
theorem exists_inPhase {workers : List P} (h : 0 < inPhase p workers) :
    ∃ (i : ℕ) (a : P), workers[i]? = some a ∧ p a = true := by
  obtain ⟨a,ha,hp⟩ := List.countP_pos_iff.mp h
  obtain ⟨i,hi⟩ := List.mem_iff_getElem?.mp ha
  exact ⟨i,a,hi,hp⟩

end Library
