import Mathlib.Data.List.Basic
import Mathlib.Tactic

/-! A machine and its watcher. The machine moves by a partial step function; the watcher sees only the
events, and judges each of them by what it saw before. -/
namespace Library
variable {S E O : Type}

section Play
variable (step : S → E → Option S)

/-- The state after a sequence of events, if each of them was possible. -/
def play (s : S) (es : List E) : Option S := es.foldlM step s

@[simp] theorem play_nil (s : S) : play step s [] = some s := rfl

theorem play_concat (s : S) (es : List E) (e : E) :
    play step s (es ++ [e]) = (play step s es).bind fun s' => step s' e := by
  rw [play,List.foldlM_append]
  change (es.foldlM step s).bind (fun s' => (step s' e).bind some) = _
  simp [play]

theorem play_concat_eq_some {step : S → E → Option S} {s s' : S} {es : List E} {e : E} :
    play step s (es ++ [e]) = some s' ↔ ∃ t, play step s es = some t ∧ step t e = some s' := by
  rw [play_concat,Option.bind_eq_some_iff]

end Play

section Watch
variable {see : O → E → O} {o : O} {P : O → E → Prop}

/-- Every event is right by what was seen before it. -/
def Always (see : O → E → O) (o : O) (P : O → E → Prop) (es : List E) : Prop :=
  ∀ before e after, es = before ++ e :: after → P (before.foldl see o) e

theorem always_nil : Always see o P [] := fun before e after h => by simp at h

theorem always_concat {es : List E} {e : E} :
    Always see o P (es ++ [e]) ↔ Always see o P es ∧ P (es.foldl see o) e := by
  constructor
  · intro h
    refine ⟨?_,h es e [] rfl⟩
    rintro before x after rfl
    exact h before x (after ++ [e]) (by simp)
  · rintro ⟨h,last⟩ before x after hes
    induction after using List.reverseRecOn with
    | nil =>
      obtain ⟨rfl,hx⟩ := List.append_inj' hes rfl
      cases hx
      exact last
    | append_singleton after z _ =>
      rw [← List.cons_append,← List.append_assoc] at hes
      exact h before x after (List.append_inj' hes rfl).1

/-- What right events preserve holds after any of them. -/
theorem play_invariant {step : S → E → Option S} {I : S → O → Prop}
    (keeps : ∀ s o e s', I s o → P o e → step s e = some s' → I s' (see o e)) {s s' : S}
    {es : List E} (init : I s o) (right : Always see o P es) (run : play step s es = some s') :
    I s' (es.foldl see o) := by
  induction es using List.reverseRecOn generalizing s' with
  | nil =>
    cases run
    exact init
  | append_singleton es e ih =>
    obtain ⟨t,ht,hs⟩ := play_concat_eq_some.mp run
    obtain ⟨hes,he⟩ := always_concat.mp right
    rw [List.foldl_append]
    exact keeps t _ e s' (ih hes ht) he hs

end Watch
end Library
