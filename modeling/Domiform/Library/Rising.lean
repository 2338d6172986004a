import Mathlib.Tactic

/-! The rises of a sequence of values: those that meet a predicate when the value before did not, or
when there was none. -/
namespace Library
variable {V : Type} (sat : V → Bool)

/-- A value, or the mark that it rose. -/
inductive Pulse (V : Type)
  | value (v : V)
  | rise

def rises (prior : Option V) (v : V) : Bool := sat v && !prior.any sat

/-- A value, with a mark behind it if it rises. -/
def pulse (prior : Option V) (v : V) : List (Pulse V) :=
  .value v :: if rises sat prior v then [.rise] else []

/-- The values of a sequence, each over the one before it. -/
def pulses (prior : Option V) : List V → List (Pulse V)
  | [] => []
  | v :: vs => pulse sat prior v ++ pulses (some v) vs

theorem getLast_cons_or (u : V) (vs : List V) (prior : Option V) :
    (u :: vs).getLast?.or prior = vs.getLast?.or (some u) := by
  cases vs with
  | nil => rfl
  | cons w ws =>
    rw [List.getLast?_cons_cons,List.getLast?_cons]
    rfl

/-- One value more. -/
theorem pulses_concat (prior : Option V) (vs : List V) (v : V) :
    pulses sat prior (vs ++ [v]) = pulses sat prior vs ++ pulse sat (vs.getLast?.or prior) v := by
  induction vs generalizing prior with
  | nil => exact List.append_nil _
  | cons u vs ih => rw [List.cons_append,pulses,ih,pulses,getLast_cons_or,List.append_assoc]

end Library
