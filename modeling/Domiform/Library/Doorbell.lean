import Mathlib.Data.List.Basic
import Mathlib.Tactic

/-! A doorbell. Senders leave messages in boxes, and each rings after every message it left, as late
as it likes. A keeper waits for a ring, or tires of waiting, and then goes round the boxes and
empties them one after the other. -/
namespace Library
open Relation

/-- Where the keeper is; on a round, with the boxes still to be emptied. -/
inductive Keeper (ι : Type)
  | away
  | waiting
  | round (boxes : List ι)

/-- `hand` tells for which box a sender has yet to ring. `sent` is all that was ever left in a box,
and `taken` what the keeper took out of it. -/
structure Doorbell (ι κ α : Type) where
  box : ι → List (κ × α)
  hand : κ → Option ι
  rings : ℕ
  keeper : Keeper ι
  sent : ι → List (κ × α)
  taken : ι → List (κ × α)

namespace Doorbell
variable {ι κ α : Type} [DecidableEq ι] [DecidableEq κ] {order : List ι} {d d' : Doorbell ι κ α}

inductive Step (order : List ι) : Doorbell ι κ α → Doorbell ι κ α → Prop
  | leave (d : Doorbell ι κ α) (k : κ) (i : ι) (a : α) (free : d.hand k = none) :
      Step order d
        { d with
          box := Function.update d.box i (d.box i ++ [(k,a)])
          hand := Function.update d.hand k (some i)
          sent := Function.update d.sent i (d.sent i ++ [(k,a)]) }
  | ring (d : Doorbell ι κ α) (k : κ) (i : ι) (held : d.hand k = some i) :
      Step order d { d with hand := Function.update d.hand k none, rings := d.rings+1 }
  | wait (d : Doorbell ι κ α) (away : d.keeper = .away) : Step order d { d with keeper := .waiting }
  | hear (d : Doorbell ι κ α) (waiting : d.keeper = .waiting) (rung : 0 < d.rings) :
      Step order d { d with rings := d.rings-1, keeper := .round order }
  | tire (d : Doorbell ι κ α) (waiting : d.keeper = .waiting) :
      Step order d { d with keeper := .round order }
  | take (d : Doorbell ι κ α) (i : ι) (boxes : List ι) (x : κ × α) (rest : List (κ × α))
      (here : d.keeper = .round (i :: boxes)) (full : d.box i = x :: rest) :
      Step order d
        { d with
          box := Function.update d.box i rest
          taken := Function.update d.taken i (d.taken i ++ [x]) }
  | pass (d : Doorbell ι κ α) (i : ι) (boxes : List ι) (here : d.keeper = .round (i :: boxes))
      (empty : d.box i = []) : Step order d { d with keeper := .round boxes }
  | home (d : Doorbell ι κ α) (here : d.keeper = .round []) : Step order d { d with keeper := .away }

/-- The keeper will still come to a box on this round. -/
def Due (d : Doorbell ι κ α) (i : ι) : Prop := ∃ boxes, d.keeper = .round boxes ∧ i ∈ boxes

/-- How many messages a sender has in a list. -/
abbrev ofSender (k : κ) (l : List (κ × α)) : ℕ := l.countP fun x => x.1 = k

/-- For how many messages a sender has yet to ring. -/
def unrung (d : Doorbell ι κ α) (k : κ) (i : ι) : ℕ := if d.hand k = some i then 1 else 0

/-- Nothing is lost, doubled or overtaken; and in a box to which the keeper will not come, while no
ring is to be heard, there is at most the one message for which its sender has yet to ring. -/
structure Attended (d : Doorbell ι κ α) : Prop where
  kept : ∀ i, d.taken i ++ d.box i = d.sent i
  quiet : ∀ i, ¬ d.Due i → d.rings = 0 → ∀ k, ofSender k (d.box i) ≤ d.unrung k i

namespace Attended

theorem leave (h : d.Attended) (k : κ) (i : ι) (a : α) (free : d.hand k = none) :
    Attended { d with
      box := Function.update d.box i (d.box i ++ [(k,a)])
      hand := Function.update d.hand k (some i)
      sent := Function.update d.sent i (d.sent i ++ [(k,a)]) } := by
  constructor
  · intro j
    by_cases hj : j = i
    · subst hj
      simp [← h.kept]
    · simpa [hj] using h.kept j
  · intro j hd hr k'
    have hq := h.quiet j hd hr k'
    by_cases hk : k' = k
    · subst hk
      have none : ofSender k' (d.box j) = 0 := by simpa [unrung,free] using hq
      by_cases hj : j = i
      · subst hj
        simp [unrung,ofSender] at none ⊢
        exact none
      · simp [hj,none]
    · by_cases hj : j = i
      · subst hj
        simpa [unrung,hk,Ne.symm hk] using hq
      · simpa [unrung,hk,hj] using hq

theorem round (h : d.Attended) (covers : ∀ i, i ∈ order) (n : ℕ) :
    Attended { d with rings := n, keeper := .round order } :=
  ⟨h.kept,fun i hd => absurd ⟨order,rfl,covers i⟩ hd⟩

theorem take (h : d.Attended) {i : ι} {boxes : List ι} {x : κ × α} {rest : List (κ × α)}
    (here : d.keeper = .round (i :: boxes)) (full : d.box i = x :: rest) :
    Attended { d with
      box := Function.update d.box i rest
      taken := Function.update d.taken i (d.taken i ++ [x]) } := by
  constructor
  · intro j
    by_cases hj : j = i
    · subst hj
      simp [← h.kept,full]
    · simpa [hj] using h.kept j
  · intro j hd hr k
    have hj : j ≠ i := by
      rintro rfl
      exact hd ⟨_,here,List.mem_cons_self⟩
    simpa [unrung,hj] using h.quiet j hd hr k

theorem pass (h : d.Attended) {i : ι} {boxes : List ι} (here : d.keeper = .round (i :: boxes))
    (empty : d.box i = []) : Attended { d with keeper := .round boxes } := by
  refine ⟨h.kept,fun j hd hr k => ?_⟩
  by_cases hj : j = i
  · subst hj
    simp [empty]
  · refine h.quiet j ?_ hr k
    rintro ⟨l,hl,hm⟩
    cases here.symm.trans hl
    exact hd ⟨boxes,rfl,List.mem_of_ne_of_mem hj hm⟩

theorem step (h : d.Attended) (covers : ∀ i, i ∈ order) (hs : Step order d d') : d'.Attended := by
  cases hs with
  | leave k i a free => exact h.leave k i a free
  | ring k i held => exact ⟨h.kept,fun j _ hr => absurd hr (Nat.succ_ne_zero _)⟩
  | wait away =>
    refine ⟨h.kept,fun i _ hr k => h.quiet i ?_ hr k⟩
    rintro ⟨l,hl,-⟩
    cases away.symm.trans hl
  | hear waiting rung => exact h.round covers _
  | tire waiting => exact h.round covers _
  | take i boxes x rest here full => exact h.take here full
  | pass i boxes here empty => exact h.pass here empty
  | home here =>
    refine ⟨h.kept,fun i _ hr k => h.quiet i ?_ hr k⟩
    rintro ⟨l,hl,hm⟩
    cases here.symm.trans hl
    cases hm

theorem run (h : d.Attended) (covers : ∀ i, i ∈ order) (hs : ReflTransGen (Step order) d d') :
    d'.Attended := by
  induction hs with
  | refl => exact h
  | tail _ hs ih => exact ih.step covers hs

/-- While the keeper waits in silence, it has taken every message for which its sender has rung. -/
theorem taken_of_waiting (h : d.Attended) (waiting : d.keeper = .waiting) (silent : d.rings = 0)
    (k : κ) (i : ι) : ofSender k (d.sent i) ≤ ofSender k (d.taken i)+d.unrung k i := by
  have away : ¬ d.Due i := by
    rintro ⟨l,hl,-⟩
    cases waiting.symm.trans hl
  have hq := h.quiet i away silent k
  rw [← h.kept i,ofSender,List.countP_append]
  exact Nat.add_le_add_left hq _

end Attended
end Doorbell
end Library
