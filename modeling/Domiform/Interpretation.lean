import Domiform.Compile.Meaning
import Domiform.Engine.Marks
import Domiform.Library.Matched
import Domiform.Waiting

/-! The file as a program. Which rules hear an event, what becomes of their conditions and which of
them act, can be read off the nodes of the file; the engine that the compiler builds marks its rules
just so, event by event. -/
namespace Domiform
open Library Checked Relation

namespace RawRule

/-- What is known of the condition of a rule; a rule without one asks for nothing. -/
noncomputable def judge (lw : Lowerer) (name : String) (s : StateStore) (raw : RawRule) : Truth :=
  match raw.condition with
  | none => .true
  | some v => lw.judge (Resolve.ruleContext name) s v

/-- Whether an event meets the trigger of a rule. -/
def Hears (lw : Lowerer) (s : StateStore) (ev : Event) (raw : RawRule) : Prop :=
  Lowerer.OfEntry (lw.Heeds s ev) raw.trigger

/-- Whether what the rule waits for lasts. -/
def Waits (lw : Lowerer) (s : StateStore) (raw : RawRule) : Prop :=
  Lowerer.OfEntry (lw.Lasts s) raw.trigger

end RawRule

section Entries
open scoped Classical
variable (lw : Lowerer) (s : StateStore) (ev : Event) (x : (String × RawRule) × ℕ)

/-- The entry of the file is considered if the event meets its trigger. -/
noncomputable def considered : Option RuleMark :=
  let truth := x.1.2.judge lw x.1.1 (Engine.fold s ev)
  if x.1.2.Hears lw s ev then some (.considered ⟨x.2⟩ truth truth.isTrue) else none

/-- It acts at once if moreover its condition is known to hold and it need not wait. -/
noncomputable def acts : Option RuleMark :=
  if x.1.2.Hears lw s ev ∧ x.1.2.judge lw x.1.1 (Engine.fold s ev) = .true ∧
    x.1.2.forDuration = none then some (.firing ⟨x.2⟩) else none

/-- A rule that has waited acts if what it waited for still lasts. -/
noncomputable def released : List RuleMark := if x.1.2.Waits lw s then [.firing ⟨x.2⟩] else []

end Entries

section Counterparts
variable {lw : Lowerer} {name : String} {i : ℕ} {raw : RawRule} {r : Rule} {sc : Scope}

theorem Lowerer.ofEntry_iff {p : String → Value → Prop} {k payload : Value} {verb : String}
    (hk : k.asStr = some verb) : Lowerer.OfEntry p (.mapping [(k,payload)]) ↔ p verb payload := by
  constructor
  · rintro ⟨k',payload',verb',he,hk',hp⟩
    cases he
    cases hk.symm.trans hk'
    exact hp
  · exact fun hp => ⟨k,payload,verb,rfl,hk,hp⟩

namespace Lowerer.RuleOf
variable (h : lw.RuleOf name i raw r)
include h

theorem spells : ∃ k payload verb, raw.trigger = .mapping [(k,payload)] ∧ k.asStr = some verb ∧
    lw.Spells payload verb r.trigger := by
  obtain ⟨⟨verb,payload⟩,hv,ht⟩ := value_bind_eq_some.mp h.trigger
  obtain ⟨k,hm,hk⟩ := Lowerer.singleEntry_eq_some hv
  exact ⟨k,payload,verb,hm,hk,Lowerer.triggerOf_spells ht⟩

theorem hears {s : StateStore} {ev : Event} {prior : Option CapabilityState}
    (before : ∀ d v, ev = .stateReported d v → prior = s.get d v.kind) :
    r.trigger.matchesEvent ev prior = true ↔ raw.Hears lw s ev := by
  obtain ⟨k,payload,verb,hm,hk,hs⟩ := h.spells
  rw [RawRule.Hears,hm,Lowerer.ofEntry_iff hk]
  exact hs.matches before

theorem waits {s : StateStore} : r.trigger.predicateHolds s = true ↔ raw.Waits lw s := by
  obtain ⟨k,payload,verb,hm,hk,hs⟩ := h.spells
  rw [RawRule.Waits,hm,Lowerer.ofEntry_iff hk]
  exact hs.predicate

theorem judged (hw : r.WellFormed sc) (s : StateStore) :
    r.condition.eval s = raw.judge lw name s := by
  rw [RawRule.judge]
  cases hc : raw.condition with
  | none =>
    rw [h.always.mpr hc]
    rfl
  | some v => exact (h.condition v hc).judged hw.condition

theorem immediate : r.forDuration = none ↔ raw.forDuration = none := by
  rw [← Option.not_isSome_iff_eq_none,h.lasting,Option.not_isSome_iff_eq_none]

end Lowerer.RuleOf

end Counterparts

section Accepted
variable {lib : Libraries} {π : HashOrder} {raw : RawConfig} {cfg : CompiledConfig}
variable {A N : Type}

/-- The rules of the engine that an event concerns are the entries of the file that it concerns. -/
theorem marks_as_written (accepted : resolve lib π raw = .ok cfg) {e : Engine A N}
    (rules : e.rules = cfg.rules) (ev : Event) :
    (e.matched ev).map (fun r =>
        RuleMark.considered r.id (e.verdict ev r) (e.verdict ev r).isTrue) =
      raw.rules.entries.zipIdx.filterMap (considered (Resolve.lowerer lib raw) e.state ev) ∧
    (((e.met ev).filter fun r => r.forDuration.isNone).map fun r => RuleMark.firing r.id) =
      raw.rules.entries.zipIdx.filterMap (acts (Resolve.lowerer lib raw) e.state ev) := by
  have before (d : DeviceId) (v : CapabilityState) (h : ev = .stateReported d v) :
      e.prior ev = e.state.get d v.kind := by
    rw [h]
    rfl
  constructor
  · rw [← List.filterMap_eq_map',Engine.matched,List.filterMap_filter,rules]
    refine (filterMap_eq_of_forall₂ (rules_of_accepted accepted) fun x r ⟨h,hw⟩ => ?_).symm
    have hears := h.hears before
    rw [considered,h.numbered,Engine.verdict,h.judged hw]
    by_cases hh : x.1.2.Hears (Resolve.lowerer lib raw) e.state ev
    · rw [if_pos hh,if_pos (hears.mpr hh)]
    · rw [if_neg hh,if_neg (hears.not.mpr hh)]
  · rw [← List.filterMap_eq_map',Engine.met,Engine.matched,List.filterMap_filter,
      List.filterMap_filter,List.filterMap_filter,rules]
    refine (filterMap_eq_of_forall₂ (rules_of_accepted accepted) fun x r ⟨h,hw⟩ => ?_).symm
    have hears := h.hears before
    simp only [acts,h.numbered,Engine.verdict,h.judged hw,Truth.isTrue_iff,
      Option.isNone_iff_eq_none,h.immediate,ite_and]
    by_cases hh : x.1.2.Hears (Resolve.lowerer lib raw) e.state ev
    · rw [if_pos hh,if_pos (hears.mpr hh)]
    · rw [if_neg hh,if_neg (hears.not.mpr hh)]

variable [Adapter A] [NorthboundAdapter N] {b : Builders A N} {e₀ : Engine A N} {host : Host N}
  {p : Phase} {c c' : Config A N}

/-- In every run of every accepted config each event on the ordinary path is shown to exactly those
rules of the file whose trigger it meets, in the order of the file; each is considered with what is
known of its `if` on the store with the event in it, and those that need not wait and whose `if` is
known to hold act. The end of a wait makes its rule act if what it waited for still lasts. Nothing
else makes a rule act or be considered. -/
theorem rules_react_as_written (accepted : resolve lib π raw = .ok cfg)
    (built : buildEngineFull b cfg = some e₀) (run : Run π host ⟨e₀,p⟩ c)
    (step : Step π host c c') :
    (∀ ev depth rest, c.engine.queue = (ev,depth) :: rest → c.engine.Considers ev depth →
      c'.engine.marks = c.engine.marks ++
        raw.rules.entries.zipIdx.filterMap
          (considered (Resolve.lowerer lib raw) c.engine.state ev) ++
        raw.rules.entries.zipIdx.filterMap (acts (Resolve.lowerer lib raw) c.engine.state ev)) ∧
    (∀ key depth rest x, c.engine.queue = (.timerElapsed key,depth) :: rest →
      depth ≤ c.engine.maxCascadeDepth → x ∈ raw.rules.entries.zipIdx →
      c.engine.pendingFor.lookup ⟨x.2⟩ = some ⟨key⟩ →
      c'.engine.marks = c.engine.marks ++ released (Resolve.lowerer lib raw) c.engine.state x) ∧
    ((∀ ev depth rest, c.engine.queue = (ev,depth) :: rest → ¬c.engine.Considers ev depth ∧
      ∀ key, ev = .timerElapsed key → depth ≤ c.engine.maxCascadeDepth →
        ∀ rule, c.engine.pendingFor.lookup rule ≠ some ⟨key⟩) →
      c'.engine.marks = c.engine.marks) := by
  have hb := built_of_accepted accepted built
  have hrules : c.engine.rules = cfg.rules := run.wiring.rules.trans hb.rules
  refine ⟨fun ev depth rest next shown => ?_,fun key depth rest x next le hx waiting => ?_,
    fun hidden => ?_⟩
  · obtain ⟨fuel,hp⟩ := step.of_next next
    have hm := Engine.marks_of_considers (e := { c.engine with queue := rest }) shown hp
    obtain ⟨heard,acted⟩ := marks_as_written accepted (e := { c.engine with queue := rest }) hrules ev
    rw [hm,heard,acted]
    rfl
  · obtain ⟨fuel,hp⟩ := step.of_next next
    let e₁ : Engine A N := { c.engine with queue := rest }
    have keyed₁ : e₁.Keyed := (run.keyed hb.fresh).of_eq rfl rfl rfl rfl
    have keyed₂ : (e₁.received (.timerElapsed key) depth).Keyed := keyed₁.of_eq rfl rfl rfl rfl
    have distinct : c.engine.RulesDistinct := (hb.rulesDistinct accepted).of_wiring run.wiring
    obtain ⟨r,hr,h,-⟩ := exists_of_forall₂ (rules_of_accepted accepted) x hx
    rw [← hrules] at hr
    have waiting' : c.engine.pendingFor.lookup r.id = some ⟨key⟩ := by
      rw [h.numbered]
      exact waiting
    have hp' := (Engine.process_of_waiting π fuel keyed₁ le waiting').symm.trans hp
    rw [Engine.fireElapsedFor_of_waiting π fuel keyed₂ distinct hr waiting'] at hp'
    have lasts : r.trigger.predicateHolds (e₁.received (.timerElapsed key) depth).state = true ↔
        x.1.2.Waits (Resolve.lowerer lib raw) c.engine.state := h.waits
    rw [released]
    split_ifs at hp' with hs
    · rw [if_pos (lasts.mp hs),Engine.marks_fire hp',h.numbered]
      exact congrArg (· ++ _) (Engine.marks_received e₁ _ depth)
    · rw [if_neg (lasts.not.mp hs),List.append_nil,← Except.ok.inj hp']
      exact Engine.marks_received e₁ _ depth
  · cases step with
    | start => exact Engine.marks_started π _
    | advance => exact Engine.marks_advanced π _ _
    | synced | inject | addNorthbound => rfl
    | @process e e' p ev depth rest fuel next hp =>
      obtain ⟨quiet,alone⟩ := hidden ev depth rest next
      by_cases le : depth ≤ e.maxCascadeDepth
      · have quiet' : ¬({ e with queue := rest } : Engine A N).Considers ev depth := quiet
        rcases Engine.marks_of_not_considers quiet' hp with ⟨hm,-⟩ | ⟨key,r,rfl,-,hw,-⟩
        · exact hm
        · exact absurd hw (alone key rfl le r.id)
      · rw [Engine.process,if_pos (not_le.mp le)] at hp
        rw [← Except.ok.inj hp,Engine.notify,Engine.marks_record]
        exact List.append_nil _

end Accepted

/-- The lamp is reported on while nothing is known of the sun and the time: the night rule is
considered just as its nodes read. -/
theorem night_reacts_as_written : ∃ cfg e₀ c c',
    resolve plainLibraries .identity nightConfig = .ok cfg ∧
      buildEngineFull plainBuilders cfg = some e₀ ∧ Run .identity .any ⟨e₀,.wired⟩ c ∧
      Step .identity .any c c' ∧
      c'.engine.marks = [.considered ⟨0⟩ .unknown false] ∧
      c'.engine.marks = c.engine.marks ++
        nightConfig.rules.entries.zipIdx.filterMap (considered
          (Resolve.lowerer plainLibraries nightConfig) c.engine.state
            (.stateReported ⟨0⟩ (.switch true))) ++
        nightConfig.rules.entries.zipIdx.filterMap (acts
          (Resolve.lowerer plainLibraries nightConfig) c.engine.state
            (.stateReported ⟨0⟩ (.switch true))) := by
  obtain ⟨cfg,e₀,h,hb,hq,hc,e,he,hm⟩ : ∃ cfg e₀,
      resolve plainLibraries .identity nightConfig = .ok cfg ∧
        buildEngineFull plainBuilders cfg = some e₀ ∧ e₀.queue = [] ∧
        (e₀.enqueue (.stateReported ⟨0⟩ (.switch true)) 0).Considers
          (.stateReported ⟨0⟩ (.switch true)) 0 ∧
        ∃ e, Engine.process .identity 2 (.stateReported ⟨0⟩ (.switch true)) 0
          { e₀.enqueue (.stateReported ⟨0⟩ (.switch true)) 0 with queue := [] } = .ok e ∧
          e.marks = [.considered ⟨0⟩ .unknown false] := ⟨_,_,rfl,rfl,rfl,by decide,_,rfl,by decide⟩
  have hn : (e₀.enqueue (.stateReported ⟨0⟩ (.switch true)) 0).queue =
      [(.stateReported ⟨0⟩ (.switch true),0)] := by
    rw [Engine.enqueue,hq]
    rfl
  have run : Run .identity .any ⟨e₀,.wired⟩
      ⟨e₀.enqueue (.stateReported ⟨0⟩ (.switch true)) 0,.wired⟩ :=
    .single (.inject _ trivial hq (by decide))
  have step : Step .identity .any
      ⟨e₀.enqueue (.stateReported ⟨0⟩ (.switch true)) 0,.wired⟩ ⟨_,.wired⟩ := .process 2 hn he
  exact ⟨cfg,e₀,_,_,h,hb,run,step,hm,(rules_react_as_written h hb run step).1 _ _ _ hn hc⟩

end Domiform
