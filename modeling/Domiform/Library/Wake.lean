import Mathlib.Data.List.MinMax
import Mathlib.Tactic

/-! Wake-up times. A source of work states the delay until it has some, if it ever has; the least of
these delays is right for all sources together. -/
namespace Library

/-- The stated delay is when something is first due; without one, nothing ever is. -/
def WakesAt (due : ℕ → Prop) : Option ℕ → Prop
  | none => ∀ dt, ¬due dt
  | some d => (∀ dt < d, ¬due dt) ∧ due d

namespace WakesAt
variable {due due' : ℕ → Prop} {w : Option ℕ}

/-- Only what is due up to the stated delay matters. -/
theorem congr (h : WakesAt due w) (hd : ∀ dt, (∀ d, w = some d → dt ≤ d) → (due dt ↔ due' dt)) :
    WakesAt due' w := by
  cases w with
  | none => exact fun dt => (hd dt (by simp)).not.mp (h dt)
  | some d =>
    refine ⟨fun dt hlt => (hd dt ?_).not.mp (h.1 dt hlt),(hd d ?_).mp h.2⟩
    · rintro _ ⟨⟩
      exact hlt.le
    · rintro _ ⟨⟩
      exact le_rfl

/-- Nothing is due before the least of several delays, and something is due then. -/
theorem of_min {α : Type} {xs : List α} (due : α → ℕ → Prop) {wake : α → Option ℕ}
    (h : ∀ x ∈ xs, WakesAt (due x) (wake x)) :
    WakesAt (fun dt => ∃ x ∈ xs, due x dt) (xs.filterMap wake).min? := by
  have hlate (x : α) (hx : x ∈ xs) (dt : ℕ) (hdt : ∀ d ∈ xs.filterMap wake, dt < d) :
      ¬due x dt := by
    have hw := h x hx
    cases hwx : wake x with
    | none =>
      rw [hwx] at hw
      exact hw dt
    | some d =>
      rw [hwx] at hw
      exact hw.1 dt (hdt d (List.mem_filterMap.mpr ⟨x,hx,hwx⟩))
  cases hm : (xs.filterMap wake).min? with
  | none =>
    rw [List.min?_eq_none_iff] at hm
    rintro dt ⟨x,hx,hdue⟩
    exact hlate x hx dt (by simp [hm]) hdue
  | some m =>
    obtain ⟨hmem,hle⟩ := List.min?_eq_some_iff.mp hm
    constructor
    · rintro dt hlt ⟨x,hx,hdue⟩
      exact hlate x hx dt (fun d hd => hlt.trans_le (hle d hd)) hdue
    · obtain ⟨x,hx,hwx⟩ := List.mem_filterMap.mp hmem
      have hw := h x hx
      rw [hwx] at hw
      exact ⟨x,hx,hw.2⟩

end WakesAt
end Library
