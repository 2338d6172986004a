import Domiform.Compile.Build
import Domiform.Engine.Timers

/-! Waiting rules. Rule ids are distinct in every engine built from a config, so a `for:` timer that
elapses belongs to exactly one rule. -/
namespace Domiform
open Library Relation

namespace Engine
variable {A N : Type}

/-- No two rules share an id. -/
def RulesDistinct (e : Engine A N) : Prop := (e.rules.map Rule.id).Nodup

variable {e e' : Engine A N}

theorem RulesDistinct.eq_of_id (h : e.RulesDistinct) {r r' : Rule} (hr : r ∈ e.rules)
    (hr' : r' ∈ e.rules) (hid : r.id = r'.id) : r = r' :=
  List.inj_on_of_nodup_map h hr hr' hid

theorem RulesDistinct.find (h : e.RulesDistinct) {r : Rule} (hr : r ∈ e.rules) :
    e.rules.find? (fun r' => r'.id == r.id) = some r := by
  cases hf : e.rules.find? (fun r' => r'.id == r.id) with
  | none =>
    have hn := List.find?_eq_none.mp hf r hr
    simp at hn
  | some r' =>
    have hid : r'.id = r.id := by simpa using List.find?_some hf
    rw [h.eq_of_id (List.mem_of_find?_eq_some hf) hr hid]

theorem RulesDistinct.of_wiring (h : e.RulesDistinct) (hw : e.Wiring e') : e'.RulesDistinct := by
  rw [RulesDistinct,hw.rules]
  exact h

variable [Adapter A]

/-- The timer of a waiting rule fires that rule, if its predicate still holds. -/
theorem fireElapsedFor_of_waiting (π : HashOrder) (fuel : ℕ) {key : TimerKey} (keyed : e.Keyed)
    (distinct : e.RulesDistinct) {r : Rule} (hr : r ∈ e.rules)
    (waiting : e.pendingFor.lookup r.id = some ⟨key⟩) :
    fireElapsedFor π fuel key e =
      if r.trigger.predicateHolds e.state then
        fire fuel r 0 { e with pendingFor := e.pendingFor.erase r.id }
      else .ok { e with pendingFor := e.pendingFor.erase r.id } := by
  have hf : (HashMap.iter π e.trace.length e.pendingFor).find? (fun p => p.2.key == key) =
      some (r.id,⟨key⟩) := by
    cases hf : (HashMap.iter π e.trace.length e.pendingFor).find? (fun p => p.2.key == key) with
    | none =>
      have hn := List.find?_eq_none.mp hf (r.id,⟨key⟩) (HashMap.mem_iter.mpr waiting)
      simp at hn
    | some x =>
      obtain ⟨id,p⟩ := x
      have hl := HashMap.mem_iter.mp (List.mem_of_find?_eq_some hf)
      have hk : p = ⟨key⟩ := by
        obtain ⟨k⟩ := p
        simpa using List.find?_some hf
      rw [hk] at hl ⊢
      rw [keyed.distinct id r.id _ hl waiting]
  rw [fireElapsedFor,hf]
  dsimp only
  rw [distinct.find hr]

omit [Adapter A] in
/-- A key a rule waits for is none of a retry. -/
theorem Keyed.not_retrying (keyed : e.Keyed) {rule : RuleId} {key : TimerKey}
    (waiting : e.pendingFor.lookup rule = some ⟨key⟩) :
    e.retries.lookup key = none ∧ key.startsWith forKeyPrefix = true := by
  obtain ⟨n,-,hk⟩ := keyed.waiting rule _ waiting
  obtain rfl : key = forKey (n+1) := hk
  refine ⟨?_,forKey_startsWith (n+1)⟩
  cases hl : e.retries.lookup (forKey (n+1)) with
  | none => rfl
  | some q =>
    obtain ⟨⟨m,-,hm⟩,-⟩ := keyed.retrying _ q hl
    exact absurd hm (forKey_ne_retryKey _ _)

/-- So its expiry is intercepted. -/
theorem process_of_waiting [NorthboundAdapter N] (π : HashOrder) (fuel : ℕ) {key : TimerKey}
    {depth : ℕ} (keyed : e.Keyed) (le : depth ≤ e.maxCascadeDepth) {rule : RuleId}
    (waiting : e.pendingFor.lookup rule = some ⟨key⟩) :
    e.process π fuel (.timerElapsed key) depth =
      (e.received (.timerElapsed key) depth).fireElapsedFor π fuel key := by
  obtain ⟨fresh,own⟩ := keyed.not_retrying waiting
  have fresh' : (e.notify (.eventReceived (.timerElapsed key) depth)).retries.lookup key = none := fresh
  rw [process,if_neg (not_lt.mpr le)]
  dsimp only
  rw [fresh']
  dsimp only
  rw [if_pos own]
  rfl

/-- Firing is written down. -/
theorem firing_mem_of_fire {fuel depth : ℕ} {rule : Rule} (h : fire fuel rule depth e = .ok e') :
    (e.now,.firing rule.id e.state) ∈ e'.trace := by
  have hacts := dispatchAll_acts (fun _ => True) (fun _ _ => trivial) (fun _ _ _ _ _ => trivial) h
  obtain ⟨xs,hx,-⟩ := (acts_frame hacts).trace
  rw [hx]
  simp

end Engine

variable {A N : Type} {b : Builders A N} {cfg : CompiledConfig} {e : Engine A N}

theorem Built.rulesDistinct {lib : Libraries} {π : HashOrder} {raw : RawConfig}
    (accepted : resolve lib π raw = .ok cfg) (h : Built b cfg e) : e.RulesDistinct := by
  obtain ⟨-,-,-,-,hr,-⟩ := resolve_eq_ok accepted
  rw [Engine.RulesDistinct,h.rules,hr]
  exact rules_nodup lib raw

end Domiform
