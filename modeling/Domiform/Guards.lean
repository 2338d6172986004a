import Domiform.Bindings
import Domiform.Waiting

/-! Guards. A rule that fires at once does so right after its condition was evaluated; a rule that
waited fires on its trigger's predicate alone, whatever its condition has become meanwhile. -/
namespace Domiform
open Library Relation

variable {A N : Type}

/-- Whenever a rule's commands were dispatched, its condition was true of the store at that moment. -/
def Engine.Guarded (e : Engine A N) : Prop :=
  ∀ t r s, r ∈ e.rules → (t,Entry.firing r.id s) ∈ e.trace → r.condition.eval s = .true

/-- If the next event is the timer of a waiting rule whose predicate still holds, then the rule's
condition holds as well. -/
def Config.Rechecked (c : Config A N) : Prop :=
  ∀ key depth rest r, c.engine.queue = (.timerElapsed key,depth) :: rest →
    depth ≤ c.engine.maxCascadeDepth → r ∈ c.engine.rules →
    c.engine.pendingFor.lookup r.id = some ⟨key⟩ →
    r.trigger.predicateHolds c.engine.state = true → r.condition.eval c.engine.state = .true

variable [Adapter A] [NorthboundAdapter N] {π : HashOrder} {host : Host N} {c c' : Config A N}

/-- A step whose recheck would pass keeps the guard. -/
theorem Step.guarded (distinct : c.engine.RulesDistinct) (ok : c.Rechecked)
    (step : Step π host c c') (h : c.engine.Guarded) : c'.engine.Guarded := by
  have hw := step.wiring
  cases step with
  | @process e e' p ev depth rest fuel next hp =>
    have hp' := Engine.process_processed hp
    intro t r s hr hm
    rw [hw.rules] at hr
    by_cases le : depth ≤ e.maxCascadeDepth
    · obtain ⟨xs,hx,hxs⟩ := hp'.history le
      rw [hx,List.mem_append,List.mem_cons] at hm
      rcases hm with hm | hm | hm
      · exact h t r s hr hm
      · cases hm
      · obtain ⟨x,hx',he⟩ := List.mem_map.mp hm
        cases he
        obtain ⟨rfl,r',hf,hid⟩ := (hxs _ hx').2 _ _ rfl
        cases hf with
        | now mem immediate matched holds =>
          rw [← distinct.eq_of_id mem hr hid]
          exact holds
        | later key timer pending fresh found sustained =>
          subst timer
          obtain rfl := distinct.eq_of_id (List.mem_of_find?_eq_some found) hr hid
          exact ok key depth rest r' next le hr pending sustained
    · cases hp' with
      | dropped =>
        have hm' : (t,Entry.firing r.id s) ∈ e.trace := by
          simpa [Engine.notify,Engine.record] using hm
        exact h t r s hr hm'
      | _ => contradiction
  | start | advance =>
    intro t r s hr hm
    apply h t r s hr
    simpa using hm
  | _ => exact h

/-- A step whose recheck would fail dispatches the commands of a rule whose condition is not true. -/
theorem Step.not_guarded (keyed : c.engine.Keyed) (distinct : c.engine.RulesDistinct)
    (bad : ¬c.Rechecked) (step : Step π host c c') : ¬c'.engine.Guarded := by
  simp only [Config.Rechecked,not_forall] at bad
  obtain ⟨key,depth,rest,r,next,le,hr,waiting,sustained,hc⟩ := bad
  intro hg
  obtain ⟨fuel,hp⟩ := step.of_next next
  let e₁ : Engine A N := { c.engine with queue := rest }
  have keyed₁ : e₁.Keyed := keyed.of_eq rfl rfl rfl rfl
  have keyed₂ : (e₁.received (.timerElapsed key) depth).Keyed := keyed.of_eq rfl rfl rfl rfl
  have hp₁ := (Engine.process_of_waiting π fuel keyed₁ le waiting).symm.trans hp
  have sustained' : r.trigger.predicateHolds (e₁.received (.timerElapsed key) depth).state = true :=
    sustained
  rw [Engine.fireElapsedFor_of_waiting π fuel keyed₂ distinct hr waiting,if_pos sustained'] at hp₁
  have hmem := Engine.firing_mem_of_fire hp₁
  have hw := (Engine.process_processed hp).wiring
  exact hc (hg _ r _ (by rw [hw.rules]; exact hr) hmem)

/-- A run whose every step would pass the recheck. -/
abbrev RecheckedRun (π : HashOrder) (host : Host N) : Config A N → Config A N → Prop :=
  ReflTransGen fun c c' => Step π host c c' ∧ c.Rechecked

/-- In every run that would pass the recheck throughout, rules only fire while their condition is
true; and the first step that would not pass it fires a rule whose condition is not. -/
theorem fired_rules_are_guarded {b : Builders A N} {lib : Libraries} {raw : RawConfig}
    {cfg : CompiledConfig} (accepted : resolve lib π raw = .ok cfg) {e₀ : Engine A N}
    (built : buildEngineFull b cfg = some e₀) {p : Phase} :
    (∀ c, RecheckedRun π host ⟨e₀,p⟩ c → c.engine.Guarded) ∧
      ∀ c c', Run π host ⟨e₀,p⟩ c → Step π host c c' → ¬c.Rechecked → ¬c'.engine.Guarded := by
  have hb := built_of_accepted accepted built
  have hd := hb.rulesDistinct accepted
  refine ⟨fun c run => ?_,fun c c' run step bad => ?_⟩
  · have inv : c.engine.Guarded ∧ c.engine.RulesDistinct := by
      induction run with
      | refl => exact ⟨by simp [Engine.Guarded,hb.fresh.trace],hd⟩
      | tail _ step ih =>
        exact ⟨step.1.guarded ih.2 step.2 ih.1,ih.2.of_wiring step.1.wiring⟩
    exact inv.1
  · have hw := Run.wiring run
    exact step.not_guarded (run.keyed hb.fresh) (hd.of_wiring hw) bad

/-- A lamp with an occupancy sensor: after one second of presence, if the lamp is on, turn it off. -/
def presenceRule : RawRule where
  trigger := .mapping [(.string "changed",.mapping [(.string "device",.string "lamp"),
    (.string "capability",.string "occupancy"),(.string "to",.bool true)])]
  condition := some (.mapping [(.string "switch",.mapping [(.string "device",.string "lamp"),
    (.string "is_on",.bool true)])])
  forDuration := some "1s"
  commands := [.mapping [(.string "turn_off",.string "lamp")]]

def presenceConfig : RawConfig where
  system := .default
  adapters := .single "bus" ⟨"virtual",.mapping []⟩
  devices := .single "lamp" ⟨"bus",none,none,["switch","occupancy"],.empty,none,none,none⟩
  scenes := .empty
  schedules := .empty
  rules := .single "presence" presenceRule

/-- Whatever the first report is, no timer is due with it. -/
theorem first_report_is_guarded : ∃ cfg e₀ c,
    resolve plainLibraries .identity presenceConfig = .ok cfg ∧
      buildEngineFull plainBuilders cfg = some e₀ ∧
      RecheckedRun .identity .any ⟨e₀,.wired⟩ c ∧
      c.engine.state.get ⟨0⟩ .switch = some (.switch true) ∧ c.engine.Guarded := by
  obtain ⟨cfg,e₀,h,hb,hq,e,he,hs⟩ : ∃ cfg e₀,
      resolve plainLibraries .identity presenceConfig = .ok cfg ∧
        buildEngineFull plainBuilders cfg = some e₀ ∧ e₀.queue = [] ∧
        ∃ e, Engine.process .identity 2 (.stateReported ⟨0⟩ (.switch true)) 0
          { e₀.enqueue (.stateReported ⟨0⟩ (.switch true)) 0 with queue := [] } = .ok e ∧
          e.state.get ⟨0⟩ .switch = some (.switch true) := ⟨_,_,rfl,rfl,rfl,_,rfl,by decide⟩
  have hn : (e₀.enqueue (.stateReported ⟨0⟩ (.switch true)) 0).queue =
      [(.stateReported ⟨0⟩ (.switch true),0)] := by
    rw [Engine.enqueue,hq]
    rfl
  have run : RecheckedRun .identity .any ⟨e₀,.wired⟩ ⟨e,.wired⟩ := by
    refine .tail (.single ⟨.inject _ trivial hq (by decide),?_⟩) ⟨.process 2 hn he,?_⟩
    · intro key depth rest r next
      exact absurd (hq.symm.trans next) (by simp)
    · intro key depth rest r next
      exact absurd (hn.symm.trans next) (by simp)
  exact ⟨cfg,e₀,_,h,hb,run,hs,(fired_rules_are_guarded h hb).1 _ run⟩

/-- The lamp is switched off by hand while the rule waits; it fires all the same, and its condition
is false of the store it fires on. -/
theorem presence_fires_unguarded : ∃ cfg e₀ c t r s,
    resolve plainLibraries .identity presenceConfig = .ok cfg ∧
      buildEngineFull plainBuilders cfg = some e₀ ∧ Run .identity .any ⟨e₀,.wired⟩ c ∧
      c.engine.queue = [] ∧ r ∈ c.engine.rules ∧ (t,Entry.firing r.id s) ∈ c.engine.trace ∧
      r.condition.eval s = .false := by
  obtain ⟨cfg,e₀,h,hb,hq,e₁,h₁,e₂,h₂,e₃,h₃,e₄,h₄,r,hr,hf⟩ : ∃ cfg e₀,
      resolve plainLibraries .identity presenceConfig = .ok cfg ∧
        buildEngineFull plainBuilders cfg = some e₀ ∧ e₀.queue = [] ∧
        ∃ e₁, e₀.inject .identity 3 (.stateReported ⟨0⟩ (.switch true)) = .ok e₁ ∧
        ∃ e₂, e₁.inject .identity 3 (.stateReported ⟨0⟩ (.occupancy true)) = .ok e₂ ∧
        ∃ e₃, e₂.inject .identity 3 (.stateReported ⟨0⟩ (.switch false)) = .ok e₃ ∧
        ∃ e₄, e₃.advance .identity 4 1000 = .ok e₄ ∧
        ∃ r, r ∈ e₄.rules ∧ (e₄.trace.any fun x =>
          match x.2 with
          | .firing id s => id == r.id && r.condition.eval s == .false
          | _ => false) = true :=
    ⟨_,_,rfl,rfl,rfl,_,rfl,_,rfl,_,rfl,_,rfl,_,List.mem_singleton_self _,by decide⟩
  obtain ⟨run₁,q₁⟩ := inject_run .any .wired trivial hq (by decide) h₁
  obtain ⟨run₂,q₂⟩ := inject_run .any .wired trivial q₁ (by decide) h₂
  obtain ⟨run₃,q₃⟩ := inject_run .any .wired trivial q₂ (by decide) h₃
  obtain ⟨run₄,q₄⟩ := advance_run .any .wired q₃ (by decide) h₄
  obtain ⟨⟨t,x⟩,hm,hx⟩ := List.any_eq_true.mp hf
  cases x with
  | firing id s =>
    simp only [Bool.and_eq_true,beq_iff_eq] at hx
    obtain ⟨rfl,hc⟩ := hx
    exact ⟨cfg,e₀,_,t,r,s,h,hb,((run₁.trans run₂).trans run₃).trans run₄,q₄,hr,hm,hc⟩
  | _ => cases hx

end Domiform
