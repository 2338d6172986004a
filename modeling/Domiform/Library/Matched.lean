import Mathlib.Data.List.Forall2

/-! Lists matched item by item. -/
namespace Library
variable {α β γ : Type} {P : α → β → Prop} {xs : List α} {ys : List β}

/-- Every item of the first list has its match in the second. -/
theorem exists_of_forall₂ (h : List.Forall₂ P xs ys) : ∀ x ∈ xs, ∃ y ∈ ys, P x y := by
  induction h with
  | nil => simp
  | cons hp _ ih =>
    refine List.forall_mem_cons.mpr ⟨⟨_,List.mem_cons_self,hp⟩,fun x hx => ?_⟩
    obtain ⟨y,hy,hp⟩ := ih x hx
    exact ⟨y,List.mem_cons_of_mem _ hy,hp⟩

/-- What is read off matched items alike is read off the lists alike. -/
theorem filterMap_eq_of_forall₂ {f : α → Option γ} {g : β → Option γ} (h : List.Forall₂ P xs ys)
    (hfg : ∀ x y, P x y → f x = g y) : xs.filterMap f = ys.filterMap g := by
  induction h with
  | nil => rfl
  | cons hp _ ih => rw [List.filterMap_cons,List.filterMap_cons,hfg _ _ hp,ih]

end Library
