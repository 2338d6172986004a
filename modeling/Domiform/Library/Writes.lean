import Mathlib.Data.List.Basic
import Mathlib.Tactic

/-! Sequences of writes to keys, and the value each key is left with. -/
namespace Library
variable {K V : Type} [DecidableEq K]

/-- The last value written to a key, if the key was written at all. -/
def lastWrite : List (K × V) → K → Option V
  | [],_ => none
  | w :: ws,k => (lastWrite ws k).or (if w.1 = k then some w.2 else none)

@[simp] theorem lastWrite_nil (k : K) : lastWrite ([] : List (K × V)) k = none := rfl

theorem lastWrite_append (xs ys : List (K × V)) (k : K) :
    lastWrite (xs ++ ys) k = (lastWrite ys k).or (lastWrite xs k) := by
  induction xs with
  | nil => simp
  | cons x xs ih => rw [List.cons_append,lastWrite,ih,lastWrite,Option.or_assoc]

theorem lastWrite_concat (ws : List (K × V)) (w : K × V) (k : K) :
    lastWrite (ws ++ [w]) k = if w.1 = k then some w.2 else lastWrite ws k := by
  rw [lastWrite_append]
  by_cases h : w.1 = k <;> simp [lastWrite,h]

theorem lastWrite_eq_none_iff {ws : List (K × V)} {k : K} :
    lastWrite ws k = none ↔ ∀ w ∈ ws, w.1 ≠ k := by
  induction ws with
  | nil => simp
  | cons w ws ih => by_cases h : w.1 = k <;> simp [lastWrite,ih,h]

/-- A value is the last one when no later write has its key. -/
theorem lastWrite_eq_some_iff {ws : List (K × V)} {k : K} {v : V} :
    lastWrite ws k = some v ↔ ∃ xs ys, ws = xs ++ (k,v) :: ys ∧ ∀ w ∈ ys, w.1 ≠ k := by
  constructor
  · intro h
    induction ws with
    | nil => cases h
    | cons w ws ih =>
      rw [lastWrite] at h
      cases hw : lastWrite ws k with
      | some u =>
        rw [hw] at h
        obtain ⟨xs,ys,rfl,hy⟩ := ih (hw.trans h)
        exact ⟨w :: xs,ys,rfl,hy⟩
      | none =>
        rw [hw,Option.none_or] at h
        split_ifs at h with hk
        cases h
        exact ⟨[],ws,by rw [← hk]; rfl,lastWrite_eq_none_iff.mp hw⟩
  · rintro ⟨xs,ys,rfl,hy⟩
    rw [lastWrite_append,lastWrite,lastWrite_eq_none_iff.mpr hy]
    simp

theorem mem_of_lastWrite {ws : List (K × V)} {k : K} {v : V} (h : lastWrite ws k = some v) :
    (k,v) ∈ ws := by
  obtain ⟨xs,ys,rfl,-⟩ := lastWrite_eq_some_iff.mp h
  simp

/-- Writing again what is already there changes nothing. -/
theorem lastWrite_append_of_agree {xs ys : List (K × V)}
    (agree : ∀ w ∈ ys, lastWrite xs w.1 = some w.2) (k : K) :
    lastWrite (xs ++ ys) k = lastWrite xs k := by
  rw [lastWrite_append]
  cases h : lastWrite ys k with
  | none => rfl
  | some v => exact (agree _ (mem_of_lastWrite h)).symm

/-- Writing a whole map, in any order, over writes to its own keys leaves exactly the map. -/
theorem lastWrite_append_map {f : K → Option V} {xs ys : List (K × V)}
    (map : ∀ k v, (k,v) ∈ ys ↔ f k = some v) (within : ∀ k, f k = none → lastWrite xs k = none)
    (k : K) : lastWrite (xs ++ ys) k = f k := by
  rw [lastWrite_append]
  cases h : lastWrite ys k with
  | some v => exact ((map k v).mp (mem_of_lastWrite h)).symm
  | none =>
    cases hf : f k with
    | none => exact within k hf
    | some v => exact absurd rfl (lastWrite_eq_none_iff.mp h _ ((map k v).mpr hf))

end Library
