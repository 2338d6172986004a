import Mathlib.Data.List.Basic
import Mathlib.Order.OrderDual
import Mathlib.Tactic

/-! Updates computed from stale reads. A list of updates arrives in batches. All updates of a batch
read the value from before the batch, so only the last of them survives; which updates survive
depends on where the list is cut. -/
namespace Library
variable {α β σ : Type}

section Batches
variable (f : σ → β → σ) (act : α → Option β)

/-- What a batch leaves: its last update, applied to the value from before the batch. -/
def stale (x : σ) (batch : List α) : σ :=
  match (batch.filterMap act).getLast? with
  | some b => f x b
  | none => x

/-- The updates that survive. -/
def survivors (batches : List (List α)) : List β :=
  batches.filterMap fun batch => (batch.filterMap act).getLast?

variable {f act}

theorem survivors_cons (batch : List α) (batches : List (List α)) :
    survivors act (batch :: batches) =
      (batch.filterMap act).getLast?.toList ++ survivors act batches := by
  unfold survivors
  rw [List.filterMap_cons]
  cases (batch.filterMap act).getLast? <;> rfl

theorem foldl_stale (x : σ) (batches : List (List α)) :
    batches.foldl (stale f act) x = (survivors act batches).foldl f x := by
  induction batches generalizing x with
  | nil => rfl
  | cons batch batches ih =>
    rw [List.foldl_cons,ih,survivors_cons,List.foldl_append]
    unfold stale
    cases (batch.filterMap act).getLast? <;> rfl

variable (act) in
theorem survivors_sublist (batches : List (List α)) :
    (survivors act batches).Sublist (batches.flatten.filterMap act) := by
  induction batches with
  | nil => exact .slnil
  | cons batch batches ih =>
    rw [List.flatten_cons,List.filterMap_append,survivors_cons]
    refine List.Sublist.append ?_ ih
    cases hb : (batch.filterMap act).getLast? with
    | none => exact List.nil_sublist _
    | some b => exact List.singleton_sublist.mpr (List.mem_of_getLast? hb)

variable (act) in
/-- The last update always survives. -/
theorem survivors_getLast? (batches : List (List α)) :
    (survivors act batches).getLast? = (batches.flatten.filterMap act).getLast? := by
  induction batches with
  | nil => rfl
  | cons batch batches ih =>
    rw [List.flatten_cons,List.filterMap_append,survivors_cons,List.getLast?_append,
      List.getLast?_append,ih]
    cases (batch.filterMap act).getLast? <;> rfl

/-- Any of the earlier updates can be made to survive: cut right behind each of them. -/
theorem exists_batches {b : β} {kept earlier : List β} (h : kept.Sublist earlier) {l : List α}
    (hl : l.filterMap act = earlier ++ [b]) :
    ∃ batches : List (List α), batches.flatten = l ∧ survivors act batches = kept ++ [b] := by
  induction kept generalizing earlier l with
  | nil =>
    refine ⟨[l],List.append_nil l,?_⟩
    rw [survivors_cons,hl,List.getLast?_concat]
    rfl
  | cons c kept ih =>
    obtain ⟨before,after,rfl,hc,hk⟩ := List.cons_sublist_iff.mp h
    rw [List.append_assoc] at hl
    obtain ⟨l₁,l₂,rfl,h₁,h₂⟩ := List.filterMap_eq_append_iff.mp hl
    obtain ⟨pre,post,rfl⟩ := List.append_of_mem hc
    obtain ⟨m₁,m₂,rfl,hm₁,hm₂⟩ : ∃ m₁ m₂, l₁ = m₁ ++ m₂ ∧ m₁.filterMap act = pre ++ [c] ∧
        m₂.filterMap act = post := by
      apply List.filterMap_eq_append_iff.mp
      rw [h₁]
      simp
    have hrest : (m₂ ++ l₂).filterMap act = (post ++ after) ++ [b] := by
      rw [List.filterMap_append,hm₂,h₂,List.append_assoc]
    obtain ⟨batches,hf,hs⟩ := ih (hk.trans (List.sublist_append_right post after)) hrest
    refine ⟨m₁ :: batches,by simp [hf],?_⟩
    rw [survivors_cons,hs,hm₁,List.getLast?_concat]
    rfl

/-- However the list is cut, the batches leave `y`: leaving out earlier updates makes no difference. -/
theorem forall_batches_iff {l : List α} {earlier : List β} {b : β} {x y : σ}
    (hl : l.filterMap act = earlier ++ [b]) :
    (∀ batches : List (List α), batches.flatten = l → batches.foldl (stale f act) x = y) ↔
      ∀ kept : List β, kept.Sublist earlier → f (kept.foldl f x) b = y := by
  constructor
  · intro h kept hk
    obtain ⟨batches,hf,hs⟩ := exists_batches hk hl
    have hy := h batches hf
    rwa [foldl_stale,hs,List.foldl_append] at hy
  · rintro h batches rfl
    have hlast := survivors_getLast? act batches
    rw [hl,List.getLast?_concat] at hlast
    obtain ⟨kept,hk⟩ := List.getLast?_eq_some_iff.mp hlast
    have hsub := survivors_sublist act batches
    rw [hl,hk,List.append_sublist_append_right] at hsub
    rw [foldl_stale,hk,List.foldl_append]
    exact h kept hsub

/-- Without updates the batches leave everything. -/
theorem foldl_stale_of_inert {batches : List (List α)} (h : batches.flatten.filterMap act = [])
    (x : σ) : batches.foldl (stale f act) x = x := by
  have hs := survivors_sublist act batches
  rw [h,List.sublist_nil] at hs
  rw [foldl_stale,hs]
  rfl

end Batches

section Order
variable [LinearOrder σ] (f : σ → β → σ)

/-- The lowest value that the updates, or some of them, lead to. -/
def lowest (x : σ) (l : List β) : σ := l.foldl (fun y b => min y (f y b)) x

/-- The highest such value. -/
def highest (x : σ) (l : List β) : σ := l.foldl (fun y b => max y (f y b)) x

variable {f} (mono : ∀ b, Monotone fun x => f x b)
include mono

theorem lowest_mono (l : List β) : Monotone fun x => lowest f x l := by
  induction l with
  | nil => exact monotone_id
  | cons b l ih =>
    intro x y h
    exact ih (min_le_min h (mono b h))

theorem lowest_le_foldl {x : σ} {kept l : List β} (h : kept.Sublist l) :
    lowest f x l ≤ kept.foldl f x := by
  induction h generalizing x with
  | slnil => exact le_rfl
  | cons b _ ih => exact (lowest_mono mono _ (min_le_left x (f x b))).trans ih
  | cons_cons b _ ih => exact (lowest_mono mono _ (min_le_right x (f x b))).trans ih

omit mono in
theorem exists_lowest (x : σ) (l : List β) : ∃ kept : List β, kept.Sublist l ∧
    kept.foldl f x = lowest f x l := by
  induction l generalizing x with
  | nil => exact ⟨[],.slnil,rfl⟩
  | cons b l ih =>
    obtain ⟨kept,hk,he⟩ := ih (min x (f x b))
    unfold lowest at he ⊢
    rw [List.foldl_cons,← he]
    rcases min_choice x (f x b) with h | h
    · exact ⟨kept,hk.cons b,by rw [h]⟩
    · exact ⟨b :: kept,hk.cons_cons b,by rw [List.foldl_cons,h]⟩

theorem foldl_le_highest {x : σ} {kept l : List β} (h : kept.Sublist l) :
    kept.foldl f x ≤ highest f x l :=
  @lowest_le_foldl β σᵒᵈ _ f (fun b => (mono b).dual) x kept l h

omit mono in
theorem exists_highest (x : σ) (l : List β) : ∃ kept : List β, kept.Sublist l ∧
    kept.foldl f x = highest f x l :=
  @exists_lowest β σᵒᵈ _ f x l

omit mono in
theorem lowest_of_fixed {x : σ} {l : List β} (h : ∀ b ∈ l, f x b = x) : lowest f x l = x := by
  induction l with
  | nil => rfl
  | cons b l ih =>
    have hl := ih fun c hc => h c (List.mem_cons_of_mem b hc)
    unfold lowest at hl ⊢
    rwa [List.foldl_cons,h b (List.mem_cons_self ..),min_self]

omit mono in
theorem highest_of_fixed {x : σ} {l : List β} (h : ∀ b ∈ l, f x b = x) : highest f x l = x :=
  @lowest_of_fixed β σᵒᵈ _ f x l h

/-- The extremes meet when no update does anything. -/
theorem lowest_eq_highest_iff {x : σ} {l : List β} :
    lowest f x l = highest f x l ↔ ∀ b ∈ l, f x b = x := by
  constructor
  · intro h b hb
    have hs : [b].Sublist l := List.singleton_sublist.mpr hb
    have h₁ : f x b ≤ x := (foldl_le_highest mono hs).trans
      (h.ge.trans (lowest_le_foldl mono (List.nil_sublist l)))
    have h₂ : x ≤ f x b := (foldl_le_highest mono (List.nil_sublist l)).trans
      (h.ge.trans (lowest_le_foldl mono hs))
    exact le_antisymm h₁ h₂
  · intro h
    rw [lowest_of_fixed h,highest_of_fixed h]

/-- Leaving out earlier updates makes no difference to the last one when it makes none at the two
extremes. -/
theorem forall_sublist_iff {x y : σ} {l : List β} {b : β} :
    (∀ kept : List β, kept.Sublist l → f (kept.foldl f x) b = y) ↔
      f (lowest f x l) b = y ∧ f (highest f x l) b = y := by
  constructor
  · intro h
    obtain ⟨lo,hlo,hl⟩ := exists_lowest (f := f) x l
    obtain ⟨hi,hhi,hh⟩ := exists_highest (f := f) x l
    rw [← hl,← hh]
    exact ⟨h lo hlo,h hi hhi⟩
  · rintro ⟨hlo,hhi⟩ kept hk
    apply le_antisymm
    · rw [← hhi]
      exact mono b (foldl_le_highest mono hk)
    · rw [← hlo]
      exact mono b (lowest_le_foldl mono hk)

end Order
end Library
