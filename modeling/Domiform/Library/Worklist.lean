import Mathlib.Logic.Hydra
import Mathlib.Tactic

/-! Worklists that feed themselves. An item taken from the front may put any number of new items
at the back, as long as each of them weighs less than it did. -/
namespace Library
variable {α : Type}

/-- `l'` is `l` after its first item was replaced by lighter ones. -/
def Worked (w : α → ℕ) (l' l : List α) : Prop :=
  ∃ x rest new, l = x :: rest ∧ l' = rest ++ new ∧ ∀ y ∈ new, w y < w x

/-- No worklist can be worked forever: the multiset of weights decreases. -/
theorem worked_wellFounded (w : α → ℕ) : WellFounded (Worked w) := by
  have hm : WellFounded (Relation.CutExpand (fun a b : ℕ => a < b)) :=
    WellFounded.cutExpand wellFounded_lt
  refine Subrelation.wf ?_ (InvImage.wf (fun l : List α => (l.map w : Multiset ℕ)) hm)
  rintro l' l ⟨x,rest,new,rfl,rfl,hlt⟩
  refine ⟨(new.map w : Multiset ℕ),w x,fun a ha => ?_,?_⟩
  · obtain ⟨y,hy,rfl⟩ := List.mem_map.mp (Multiset.mem_coe.mp ha)
    exact hlt y hy
  · change ((rest ++ new).map w : Multiset ℕ) + _ = ((x :: rest).map w : Multiset ℕ) + _
    rw [List.map_append,List.map_cons,← Multiset.coe_add,← Multiset.cons_coe,
      ← Multiset.singleton_add]
    abel

end Library
