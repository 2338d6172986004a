import Mathlib.Data.List.Basic
import Mathlib.Tactic

/-! Reports that are held back. A report is made at an instant only if a key of the instant differs from
that of the last report; otherwise the last report stands for the instant too. -/
namespace Library
variable {T K A : Type} [DecidableEq K] {key : T → K} {attr : T → A}

/-- The instant whose report stands after a sequence of instants. -/
def standing (key : T → K) (ts : List T) : Option T :=
  ts.foldl (fun p t => if p.map key = some (key t) then p else some t) none

theorem standing_concat (ts : List T) (t : T) : standing key (ts ++ [t]) =
    if (standing key ts).map key = some (key t) then standing key ts else some t := by
  rw [standing,List.foldl_append]
  rfl

/-- After an instant a report stands, and it is right about the key. -/
theorem exists_standing (key : T → K) (ts : List T) (t : T) :
    ∃ p, standing key (ts ++ [t]) = some p ∧ key p = key t := by
  rw [standing_concat]
  split_ifs with h
  · obtain ⟨p,hp,hk⟩ := Option.map_eq_some_iff.mp h
    exact ⟨p,hp,hk⟩
  · exact ⟨t,rfl,rfl⟩

/-- What stands goes on to stand where the key is the same. -/
theorem standing_concat_of_key {ts : List T} {t p : T} (h : standing key ts = some p)
    (same : key p = key t) : standing key (ts ++ [t]) = some p := by
  rw [standing_concat,h,Option.map_some,if_pos (congrArg some same)]

/-- The report that stands is right about anything else exactly if the key never hides a change of it
from one instant to the next. -/
theorem standing_faithful_iff {ts : List T} :
    (∀ pre t p, pre ++ [t] <+: ts → standing key (pre ++ [t]) = some p → attr p = attr t) ↔
      ts.IsChain fun a b => key a = key b → attr a = attr b := by
  rw [List.isChain_iff_forall_rel_of_append_cons_cons]
  constructor
  · rintro faithful a b pre post rfl same
    have ha : pre ++ [a] <+: pre ++ a :: b :: post := ⟨b :: post,by simp⟩
    have hb : (pre ++ [a]) ++ [b] <+: pre ++ a :: b :: post := ⟨post,by simp⟩
    obtain ⟨p,hp,hk⟩ := exists_standing key pre a
    have hstays := standing_concat_of_key hp (hk.trans same)
    exact (faithful pre a p ha hp).symm.trans (faithful (pre ++ [a]) b p hb hstays)
  · intro chain pre
    induction pre using List.reverseRecOn with
    | nil =>
      rintro t p - ⟨⟩
      rfl
    | append_singleton pre a ih =>
      rintro t p ⟨post,rfl⟩ hp
      obtain ⟨q,hq,hk⟩ := exists_standing key pre a
      have hqa : attr q = attr a := ih a q ⟨[t] ++ post,by simp⟩ hq
      rw [standing_concat,hq,Option.map_some] at hp
      split_ifs at hp with same
      · cases hp
        have hat : key a = key t := hk.symm.trans (Option.some.inj same)
        have around : pre ++ [a] ++ [t] ++ post = pre ++ a :: t :: post := by simp
        exact hqa.trans (chain around hat)
      · cases hp
        rfl

end Library
