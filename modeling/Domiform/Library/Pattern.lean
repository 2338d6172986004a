import Mathlib.Computability.Language
import Mathlib.Tactic

/-! Anchored patterns, as the languages they match: a text as it stands, one letter of a class, and
what regular expressions make of these. -/
namespace Library
open Computability

variable {α : Type} {p q : α → Bool} {l : Language α} {w v : List α}

/-- A text as it stands. -/
def lit (w : List α) : Language α := {w}

/-- One letter of a class. -/
def letter (p : α → Bool) : Language α := {w | ∃ a, p a = true ∧ w = [a]}

/-- One or more letters of a class. -/
def letters (p : α → Bool) : Language α := letter p * (letter p)∗

@[simp] theorem mem_lit : w ∈ lit v ↔ w = v := Iff.rfl

@[simp] theorem mem_letter : w ∈ letter p ↔ ∃ a, p a = true ∧ w = [a] := Iff.rfl

theorem mem_lit_mul : w ∈ lit v * l ↔ ∃ t ∈ l, w = v ++ t := by
  rw [Language.mem_mul]
  constructor
  · rintro ⟨a,rfl,t,ht,rfl⟩
    exact ⟨t,ht,rfl⟩
  · rintro ⟨t,ht,rfl⟩
    exact ⟨v,rfl,t,ht,rfl⟩

theorem mem_letter_mul : w ∈ letter p * l ↔ ∃ a t, p a = true ∧ t ∈ l ∧ w = a :: t := by
  rw [Language.mem_mul]
  constructor
  · rintro ⟨x,⟨a,ha,rfl⟩,t,ht,rfl⟩
    exact ⟨a,t,ha,ht,rfl⟩
  · rintro ⟨a,t,ha,ht,rfl⟩
    exact ⟨[a],⟨a,ha,rfl⟩,t,ht,rfl⟩

theorem mem_letter_kstar : w ∈ (letter p)∗ ↔ ∀ a ∈ w, p a = true := by
  rw [Language.mem_kstar]
  constructor
  · rintro ⟨parts,rfl,h⟩ a ha
    obtain ⟨x,hx,hax⟩ := List.mem_flatten.mp ha
    obtain ⟨b,hb,rfl⟩ := h x hx
    rwa [List.mem_singleton.mp hax]
  · intro h
    refine ⟨w.map fun a => [a],?_,fun x hx => ?_⟩
    · rw [← List.flatMap_def,List.flatMap_singleton']
    · obtain ⟨a,ha,rfl⟩ := List.mem_map.mp hx
      exact ⟨a,h a ha,rfl⟩

theorem mem_letters : w ∈ letters p ↔ w ≠ [] ∧ ∀ a ∈ w, p a = true := by
  rw [letters,mem_letter_mul]
  constructor
  · rintro ⟨a,t,ha,ht,rfl⟩
    exact ⟨List.cons_ne_nil a t,List.forall_mem_cons.mpr ⟨ha,mem_letter_kstar.mp ht⟩⟩
  · rintro ⟨hne,h⟩
    cases w with
    | nil => exact absurd rfl hne
    | cons a t =>
      obtain ⟨ha,ht⟩ := List.forall_mem_cons.mp h
      exact ⟨a,t,ha,mem_letter_kstar.mpr ht,rfl⟩

/-- So many letters of a class. -/
theorem mem_letter_pow {n : ℕ} : w ∈ letter p ^ n ↔ w.length = n ∧ ∀ a ∈ w, p a = true := by
  induction n generalizing w with
  | zero =>
    rw [pow_zero,Language.mem_one,List.length_eq_zero_iff]
    constructor
    · rintro rfl
      exact ⟨rfl,by simp⟩
    · exact And.left
  | succ n ih =>
    rw [pow_succ',mem_letter_mul]
    constructor
    · rintro ⟨a,t,ha,ht,rfl⟩
      obtain ⟨hl,hall⟩ := ih.mp ht
      exact ⟨by rw [List.length_cons,hl],List.forall_mem_cons.mpr ⟨ha,hall⟩⟩
    · rintro ⟨hl,h⟩
      cases w with
      | nil => cases hl
      | cons a t =>
        obtain ⟨ha,ht⟩ := List.forall_mem_cons.mp h
        exact ⟨a,t,ha,ih.mpr ⟨Nat.succ_injective hl,ht⟩,rfl⟩

/-- Two letters, one after the other. -/
theorem mem_letter_mul_letter :
    w ∈ letter p * letter q ↔ ∃ a b, p a = true ∧ q b = true ∧ w = [a,b] := by
  rw [mem_letter_mul]
  constructor
  · rintro ⟨a,t,ha,⟨b,hb,rfl⟩,rfl⟩
    exact ⟨a,b,ha,hb,rfl⟩
  · rintro ⟨a,b,ha,hb,rfl⟩
    exact ⟨a,[b],ha,⟨b,hb,rfl⟩,rfl⟩

end Library
