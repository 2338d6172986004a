import Domiform.Library.Fuel

/-! Two runs side by side. A computation that may fail is followed by another when the second returns
whenever the first does, with a related result; what the runs write down may differ in the order of
neighbours that commute. -/
namespace Library

/-- Whenever the first computation returns, the second returns something related. -/
def Followed {ε α β : Type} (P : α → β → Prop) (x : Except ε α) (y : Except ε β) : Prop :=
  ∀ a, x = .ok a → ∃ b, y = .ok b ∧ P a b

namespace Followed
variable {ε α β α' β' γ : Type} {P : α → β → Prop} {Q : α' → β' → Prop}

theorem ok {a : α} {b : β} (h : P a b) : Followed P (.ok a : Except ε α) (.ok b) := by
  rintro _ ⟨⟩
  exact ⟨b,rfl,h⟩

theorem error {err : ε} {y : Except ε β} : Followed P (.error err) y := by
  rintro _ ⟨⟩

theorem bind {x : Except ε α} {y : Except ε β} {f : α → Except ε α'} {g : β → Except ε β'}
    (h : Followed P x y) (hf : ∀ a b, P a b → Followed Q (f a) (g b)) :
    Followed Q (x >>= f) (y >>= g) := by
  intro a' ha
  obtain ⟨a,hx,ha⟩ := bind_ok_iff.mp ha
  obtain ⟨b,hy,hp⟩ := h a hx
  obtain ⟨b',hb,hq⟩ := hf a b hp a' ha
  exact ⟨b',bind_ok_iff.mpr ⟨b,hy,hb⟩,hq⟩

/-- Folds over one list follow each other when their steps do. -/
theorem foldlM {f : α → γ → Except ε α} {g : β → γ → Except ε β} {cs : List γ}
    (step : ∀ c a b, P a b → Followed P (f a c) (g b c)) {a : α} {b : β} (h : P a b) :
    Followed P (cs.foldlM f a) (cs.foldlM g b) := by
  induction cs generalizing a b with
  | nil => exact ok h
  | cons c cs ih =>
    rw [List.foldlM_cons,List.foldlM_cons]
    exact (step c a b h).bind fun _ _ => ih

end Followed

/-- Equal up to the order of neighbours that are all loose. -/
inductive Reordered {α : Type} (loose : α → Prop) : List α → List α → Prop
  | nil : Reordered loose [] []
  | concat {xs ys : List α} (h : Reordered loose xs ys) (x : α) :
      Reordered loose (xs ++ [x]) (ys ++ [x])
  | shuffled {xs ys zs zs' : List α} (h : Reordered loose xs ys) (perm : zs.Perm zs')
      (all : ∀ z ∈ zs, loose z) : Reordered loose (xs ++ zs) (ys ++ zs')

namespace Reordered
variable {α : Type} {loose : α → Prop} {xs ys : List α}

theorem refl (xs : List α) : Reordered loose xs xs := by
  induction xs using List.reverseRecOn with
  | nil => exact .nil
  | append_singleton xs x ih => exact ih.concat x

theorem symm (h : Reordered loose xs ys) : Reordered loose ys xs := by
  induction h with
  | nil => exact .nil
  | concat _ x ih => exact ih.concat x
  | shuffled _ perm all ih => exact ih.shuffled perm.symm fun z hz => all z (perm.mem_iff.mpr hz)

end Reordered
end Library
