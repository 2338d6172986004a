import Domiform.Engine.Process

/-! Runs. A host wires an engine, starts it, and then injects events and advances time. Between two
of its calls the queue is empty; within one, events are processed one by one. -/
namespace Domiform
open Library Relation

/-- Where the host is: before `start`, inside it, or after it. `registered` counts the northbound
adapters that were there when the engine was last started. -/
inductive Phase
  | wired
  | booting
  | running (registered : ℕ)
  deriving DecidableEq

/-- What a host may do: the events it injects, and the northbound adapters it registers late. -/
structure Host (N : Type) where
  injects : Event → Prop
  registers : N → Prop

/-- A host without restrictions. -/
def Host.any {N : Type} : Host N := ⟨fun _ => True,fun _ => True⟩

structure Config (A N : Type) where
  engine : Engine A N
  phase : Phase

/-- Nothing has run yet: rules, scenes, adapters and bindings are wired, no more. -/
structure Engine.Fresh {A N : Type} (e : Engine A N) : Prop where
  queue : e.queue = []
  state : e.state = .empty
  timers : e.timers = ⟨⟨∅⟩,∅,∅⟩
  received : ∀ nb ∈ e.northbound, nb.received = []
  overflowed : e.overflowed = false
  trace : e.trace = []

variable {A N : Type}

namespace Engine.Fresh

theorem new : (Engine.new : Engine A N).Fresh := ⟨rfl,rfl,rfl,by simp [Engine.new],rfl,rfl⟩

variable {e : Engine A N}

theorem addAdapter (h : e.Fresh) (a : A) : (e.addAdapter a).1.Fresh :=
  ⟨h.queue,h.state,h.timers,h.received,h.overflowed,h.trace⟩

theorem addNorthbound (h : e.Fresh) (n : N) : (e.addNorthbound n).Fresh := by
  refine ⟨h.queue,h.state,h.timers,fun nb hm => ?_,h.overflowed,h.trace⟩
  rcases List.mem_append.mp hm with hm | hm
  · exact h.received nb hm
  · rw [List.mem_singleton.mp hm]

theorem bindDevice (h : e.Fresh) (device : DeviceId) (idx : AdapterIdx) :
    (e.bindDevice device idx).Fresh :=
  ⟨h.queue,h.state,h.timers,h.received,h.overflowed,h.trace⟩

theorem addRule (h : e.Fresh) (rule : Rule) : (e.addRule rule).Fresh :=
  ⟨h.queue,h.state,h.timers,h.received,h.overflowed,h.trace⟩

theorem addScene (h : e.Fresh) (scene : SceneId) (commands : List Command) :
    (e.addScene scene commands).Fresh :=
  ⟨h.queue,h.state,h.timers,h.received,h.overflowed,h.trace⟩

theorem setRetryPolicy (h : e.Fresh) (policy : RetryPolicy) : (e.setRetryPolicy policy).Fresh :=
  ⟨h.queue,h.state,h.timers,h.received,h.overflowed,h.trace⟩

end Engine.Fresh

variable [NorthboundAdapter N]

/-- At startup every adapter hears the whole store. -/
theorem Engine.sync_northbound (π : HashOrder) (e : Engine A N) :
    (e.syncNorthboundStartupState π).northbound =
      e.northbound.map fun nb => nb.hear (e.state.iter π e.trace.length) :=
  Northbound.foldl_fan _ _

variable [Adapter A]

namespace Engine

@[simp] theorem tickAdapters_trace (π : HashOrder) (e : Engine A N) :
    (e.tickAdapters π).trace = e.trace ++ [(e.now,.ticked)] := rfl

@[simp] theorem tickAdapters_state (π : HashOrder) (e : Engine A N) :
    (e.tickAdapters π).state = e.state := rfl

omit [NorthboundAdapter N] [Adapter A] in
@[simp] theorem elapse_trace (e : Engine A N) (dt : Millis) : (e.elapse dt).trace = e.trace := rfl

omit [NorthboundAdapter N] [Adapter A] in
@[simp] theorem elapse_state (e : Engine A N) (dt : Millis) : (e.elapse dt).state = e.state := rfl

end Engine

/-- One move of a run. -/
inductive Step (π : HashOrder) (host : Host N) : Config A N → Config A N → Prop
  | start {e : Engine A N} {p : Phase} (idle : e.queue = []) (ready : p ≠ .booting) :
      Step π host ⟨e,p⟩ ⟨(e.record .started).tickAdapters π,.booting⟩
  | synced {e : Engine A N} (idle : e.queue = []) :
      Step π host ⟨e,.booting⟩ ⟨e.syncNorthboundStartupState π,.running e.northbound.length⟩
  | inject {e : Engine A N} {p : Phase} (ev : Event) (may : host.injects ev) (idle : e.queue = [])
      (ready : p ≠ .booting) : Step π host ⟨e,p⟩ ⟨e.enqueue ev 0,p⟩
  | advance {e : Engine A N} {p : Phase} (dt : Millis) (idle : e.queue = [])
      (ready : p ≠ .booting) : Step π host ⟨e,p⟩ ⟨(e.elapse dt).tickAdapters π,p⟩
  | addNorthbound {e : Engine A N} {p : Phase} (n : N) (may : host.registers n) (idle : e.queue = [])
      (ready : p ≠ .booting) : Step π host ⟨e,p⟩ ⟨e.addNorthbound n,p⟩
  | process {e e' : Engine A N} {p : Phase} {ev : Event} {depth : ℕ} {rest : List (Event × ℕ)}
      (fuel : ℕ) (next : e.queue = (ev,depth) :: rest)
      (h : Engine.process π fuel ev depth { e with queue := rest } = .ok e') :
      Step π host ⟨e,p⟩ ⟨e',p⟩

abbrev Run (π : HashOrder) (host : Host N) : Config A N → Config A N → Prop :=
  ReflTransGen (Step π host)

/-- What a run never touches. -/
structure Engine.Wiring (e e' : Engine A N) : Prop where
  rules : e'.rules = e.rules
  deviceToAdapter : e'.deviceToAdapter = e.deviceToAdapter
  scenes : e'.scenes = e.scenes
  retry : e'.retry = e.retry
  maxCascadeDepth : e'.maxCascadeDepth = e.maxCascadeDepth
  size : e'.adapters.size = e.adapters.size

omit [NorthboundAdapter N] [Adapter A] in
theorem Engine.Wiring.trans {e e' e'' : Engine A N} (h : e.Wiring e') (h' : e'.Wiring e'') :
    e.Wiring e'' :=
  ⟨h'.rules.trans h.rules,h'.deviceToAdapter.trans h.deviceToAdapter,h'.scenes.trans h.scenes,
    h'.retry.trans h.retry,h'.maxCascadeDepth.trans h.maxCascadeDepth,h'.size.trans h.size⟩

/-- Processing one event, when the backstop drops it and when it does not. -/
theorem Engine.Processed.wiring {π : HashOrder} {fuel depth : ℕ} {ev : Event} {e e' : Engine A N}
    (h : Processed π fuel depth e ev e') : e.Wiring e' := by
  by_cases le : depth ≤ e.maxCascadeDepth
  · have hi := h.internal le
    have hf : e.Wiring ((e.received ev depth).foldState ev) := by
      cases ev <;> exact ⟨rfl,rfl,rfl,rfl,rfl,rfl⟩
    exact hf.trans ⟨hi.rules,hi.deviceToAdapter,hi.scenes,hi.retry,hi.maxCascadeDepth,hi.size⟩
  · cases h with
    | dropped => exact ⟨rfl,rfl,rfl,rfl,rfl,rfl⟩
    | _ => contradiction

theorem Step.wiring {π : HashOrder} {host : Host N} {c c' : Config A N}
    (h : Step π host c c') : c.engine.Wiring c'.engine := by
  cases h with
  | process fuel next h =>
    have hp := (Engine.process_processed h).wiring
    exact ⟨hp.rules,hp.deviceToAdapter,hp.scenes,hp.retry,hp.maxCascadeDepth,hp.size⟩
  | start | advance => exact ⟨rfl,rfl,rfl,rfl,rfl,by simp [Engine.tickAdapters,Engine.elapse,
      Engine.record,Engine.enqueueAll,AdapterTable.tick,AdapterTable.size]⟩
  | _ => exact ⟨rfl,rfl,rfl,rfl,rfl,rfl⟩

theorem Run.wiring {π : HashOrder} {host : Host N} {c c' : Config A N}
    (h : Run π host c c') : c.engine.Wiring c'.engine := by
  induction h with
  | refl => exact ⟨rfl,rfl,rfl,rfl,rfl,rfl⟩
  | tail _ step ih => exact ih.trans step.wiring

/-- While an event waits, the only step is to process it. -/
theorem Step.of_next {π : HashOrder} {host : Host N} {c c' : Config A N} {ev : Event} {depth : ℕ}
    {rest : List (Event × ℕ)} (next : c.engine.queue = (ev,depth) :: rest)
    (step : Step π host c c') :
    ∃ fuel, Engine.process π fuel ev depth { c.engine with queue := rest } = .ok c'.engine := by
  cases step with
  | @process e e' p ev' depth' rest' fuel next' hp =>
    obtain ⟨⟨rfl,rfl⟩,rfl⟩ : (ev' = ev ∧ depth' = depth) ∧ rest' = rest := by
      have := next'.symm.trans next
      simpa using this
    exact ⟨fuel,hp⟩
  | start idle | synced idle => exact absurd (idle.symm.trans next) (by simp)
  | inject ev may idle | addNorthbound n may idle => exact absurd (idle.symm.trans next) (by simp)
  | advance dt idle => exact absurd (idle.symm.trans next) (by simp)

/-- A sum of times that has not wrapped by the end of a run never did. -/
theorem Step.overflowed {π : HashOrder} {host : Host N} {c c' : Config A N}
    (step : Step π host c c') (h : c'.engine.overflowed = false) :
    c.engine.overflowed = false := by
  cases step with
  | @process e e' p ev depth rest fuel next hp =>
    have hp' := Engine.process_processed hp
    by_cases le : depth ≤ e.maxCascadeDepth
    · have ho := (hp'.internal le).overflowed h
      cases ev <;> exact ho
    · cases hp' with
      | dropped => exact h
      | _ => contradiction
  | advance dt idle ready => exact (Bool.or_eq_false_iff.mp h).1
  | _ => exact h

section Calls
variable {π : HashOrder} (host : Host N) {fuel : ℕ} {e e' : Engine A N} (p : Phase)

/-- Draining is a run that ends at rest. -/
theorem drain_run (h : Engine.drain π fuel e = .ok e') :
    Run π host ⟨e,p⟩ ⟨e',p⟩ ∧ e'.queue = [] := by
  refine Engine.drain_induct (I := fun b => Run π host ⟨e,p⟩ ⟨b,p⟩) ?_ h .refl
  intro fuel ev depth rest b b' hq hp hb
  exact hb.tail (.process fuel hq hp)

theorem start_run (idle : e.queue = []) (ready : p ≠ .booting)
    (h : Engine.start π fuel e = .ok e') :
    Run π host ⟨e,p⟩ ⟨e',.running e'.northbound.length⟩ ∧ e'.queue = [] := by
  obtain ⟨e₁,h₁,h₂⟩ := bind_ok_iff.mp h
  obtain ⟨hr,he⟩ := drain_run host .booting h₁
  cases h₂
  rw [Engine.sync_northbound,List.length_map]
  exact ⟨(ReflTransGen.single (.start idle ready)).trans (hr.tail (.synced he)),he⟩

theorem inject_run {ev : Event} (may : host.injects ev) (idle : e.queue = []) (ready : p ≠ .booting)
    (h : Engine.inject π fuel ev e = .ok e') : Run π host ⟨e,p⟩ ⟨e',p⟩ ∧ e'.queue = [] := by
  obtain ⟨hr,he⟩ := drain_run host p h
  exact ⟨.head (.inject ev may idle ready) hr,he⟩

theorem advance_run {dt : Millis} (idle : e.queue = []) (ready : p ≠ .booting)
    (h : Engine.advance π fuel dt e = .ok e') : Run π host ⟨e,p⟩ ⟨e',p⟩ ∧ e'.queue = [] := by
  obtain ⟨hr,he⟩ := drain_run host p h
  exact ⟨.head (.advance dt idle ready) hr,he⟩

end Calls
end Domiform
