import Mathlib.Logic.Relation
import Mathlib.Tactic

/-! Relations without cycles. Where only finitely many elements lie below others, having no cycle
and being well-founded are the same. -/
namespace Library
open Relation
variable {α : Type} {r : α → α → Prop}

/-- The elements below `a` grow along the relation, and strictly so when nothing is below itself. -/
theorem below_ssubset [DecidableRel (TransGen r)] {s : Finset α} (mem : ∀ b a, r b a → b ∈ s)
    (acyclic : ∀ a, ¬TransGen r a a) {a b : α} (h : r b a) :
    s.filter (TransGen r · b) ⊂ s.filter (TransGen r · a) := by
  rw [Finset.ssubset_iff_of_subset]
  · refine ⟨b,?_,?_⟩
    · rw [Finset.mem_filter]
      exact ⟨mem b a h,.single h⟩
    · rw [Finset.mem_filter]
      exact fun hb => acyclic b hb.2
  · intro c hc
    rw [Finset.mem_filter] at hc ⊢
    exact ⟨hc.1,hc.2.tail h⟩

open Classical in
theorem wellFounded_iff_acyclic {s : Finset α} (mem : ∀ b a, r b a → b ∈ s) :
    WellFounded r ↔ ∀ a, ¬TransGen r a a := by
  constructor
  · intro wf a h
    exact wf.transGen.irrefl.irrefl a h
  · intro acyclic
    refine Subrelation.wf ?_ (InvImage.wf (fun a => (s.filter (TransGen r · a)).card) wellFounded_lt)
    intro b a h
    exact Finset.card_lt_card (below_ssubset mem acyclic h)

end Library
