import Domiform.Engine.Run

/-! The store is reported reality: it is what replaying the processed reports gives, and no other
event, command or failure writes it. -/
namespace Domiform
open Library Relation

/-- The report that an entry says was processed. -/
def Entry.report : Entry → Option (DeviceId × CapabilityState)
  | .notice (.eventReceived (.stateReported device state) _) => some (device,state)
  | _ => none

/-- The reports processed so far. -/
def reports (tr : List (Millis × Entry)) : List (DeviceId × CapabilityState) :=
  tr.filterMap fun x => x.2.report

@[simp] theorem reports_append (xs ys : List (Millis × Entry)) :
    reports (xs ++ ys) = reports xs ++ reports ys := List.filterMap_append

@[simp] theorem reports_nil : reports [] = [] := rfl

@[simp] theorem reports_cons (x : Millis × Entry) (tr : List (Millis × Entry)) :
    reports (x :: tr) = x.2.report.toList ++ reports tr := by
  rw [reports,List.filterMap_cons]
  cases x.2.report <;> rfl

theorem Entry.report_of_isBus {x : Entry} (h : x.isBus = false) : x.report = none := by
  cases x with
  | notice n => cases n <;> first | rfl | cases h
  | _ => rfl

theorem reports_of_isBus {xs : List Entry} {t : Millis} (h : ∀ x ∈ xs, x.isBus = false) :
    reports (xs.map fun x => (t,x)) = [] := by
  rw [reports,List.filterMap_eq_nil_iff]
  intro y hy
  obtain ⟨x,hx,rfl⟩ := List.mem_map.mp hy
  exact Entry.report_of_isBus (h x hx)

variable {A N : Type}

namespace Engine

/-- The store is what its processed reports say. -/
def Replays (e : Engine A N) : Prop := e.state = .replay (reports e.trace)

/-- Every event that was received was within the cascade bound. -/
def WithinBound (e : Engine A N) : Prop :=
  ∀ t ev depth, (t,Entry.notice (.eventReceived ev depth)) ∈ e.trace → depth ≤ e.maxCascadeDepth

theorem Fresh.replays {e : Engine A N} (h : e.Fresh) : e.Replays := by
  rw [Replays,h.state,h.trace]
  rfl

variable [Adapter A] [NorthboundAdapter N]

theorem Processed.replays {π : HashOrder} {fuel depth : ℕ} {ev : Event} {e e' : Engine A N}
    (h : Processed π fuel depth e ev e') (hr : e.Replays) : e'.Replays := by
  by_cases le : depth ≤ e.maxCascadeDepth
  · obtain ⟨xs,hx,hxs⟩ := h.history le
    have hn := reports_of_isBus (t := e.now) fun x hm => (hxs x hm).1
    rw [Replays] at hr
    rw [Replays,h.state le,hx,reports_append,← List.singleton_append,reports_append,hn,hr]
    -- only a report is both folded and counted
    cases ev with
    | stateReported d v =>
      rw [List.append_nil]
      exact (StateStore.replay_concat (reports e.trace) (d,v)).symm
    | _ => simp [fold,reports,Entry.report]
  · cases h with
    | dropped =>
      rw [Replays] at hr
      simp [Replays,hr,notify,record,reports,Entry.report]
    | _ => contradiction

theorem Processed.withinBound {π : HashOrder} {fuel depth : ℕ} {ev : Event} {e e' : Engine A N}
    (h : Processed π fuel depth e ev e') (hb : e.WithinBound) : e'.WithinBound := by
  intro t ev' depth' hm
  rw [h.wiring.maxCascadeDepth]
  by_cases le : depth ≤ e.maxCascadeDepth
  · obtain ⟨xs,hx,hxs⟩ := h.history le
    rw [hx,List.mem_append,List.mem_cons] at hm
    rcases hm with hm | hm | hm
    · exact hb t ev' depth' hm
    · cases hm
      exact le
    · obtain ⟨x,hx',he⟩ := List.mem_map.mp hm
      cases he
      exact absurd (hxs _ hx').1 (by simp [Entry.isBus])
  · cases h with
    | dropped =>
      have hm' : (t,Entry.notice (.eventReceived ev' depth')) ∈ e.trace := by
        simpa [notify,record] using hm
      exact hb t ev' depth' hm'
    | _ => contradiction

/-- An event within the bound that is no report, or any event beyond it, leaves the store. -/
theorem Processed.state_cases {π : HashOrder} {fuel depth : ℕ} {ev : Event} {e e' : Engine A N}
    (h : Processed π fuel depth e ev e') :
    e'.state = e.state ∨ ∃ d v, ev = .stateReported d v ∧ depth ≤ e.maxCascadeDepth ∧
      e'.state = e.state.set d v := by
  by_cases le : depth ≤ e.maxCascadeDepth
  · rw [h.state le]
    cases ev with
    | stateReported d v => exact .inr ⟨d,v,rfl,le,rfl⟩
    | _ => exact .inl rfl
  · cases h with
    | dropped => exact .inl rfl
    | _ => contradiction

end Engine

variable [Adapter A] [NorthboundAdapter N] {π : HashOrder} {host : Host N}
  {c c' : Config A N}

theorem Step.replays (h : Step π host c c') (hr : c.engine.Replays) : c'.engine.Replays := by
  cases h with
  | process fuel next h => exact (Engine.process_processed h).replays hr
  | start | advance =>
    simpa [Engine.Replays,Engine.record,Entry.report] using hr
  | _ => exact hr

theorem Step.withinBound (h : Step π host c c') (hb : c.engine.WithinBound) :
    c'.engine.WithinBound := by
  cases h with
  | process fuel next h =>
    exact (Engine.process_processed h).withinBound hb
  | start | advance =>
    intro t ev depth hm
    apply hb t ev depth
    simpa using hm
  | _ => exact hb

/-- A step writes the store only by folding a report within the bound. -/
theorem Step.state_cases (h : Step π host c c') :
    c'.engine.state = c.engine.state ∨ ∃ d v depth rest,
      c.engine.queue = (.stateReported d v,depth) :: rest ∧
        depth ≤ c.engine.maxCascadeDepth ∧ c'.engine.state = c.engine.state.set d v := by
  cases h with
  | process fuel next h =>
    rcases (Engine.process_processed h).state_cases with hs | ⟨d,v,rfl,le,hs⟩
    · exact .inl hs
    · exact .inr ⟨d,v,_,_,next,le,hs⟩
  | _ => exact .inl rfl

/-- In every run the store is the last processed report of every capability, filed under its own
kind, and replaying the processed reports rebuilds it. -/
theorem store_is_reported_reality {e₀ : Engine A N} {p : Phase} (fresh : e₀.Fresh)
    (run : Run π host ⟨e₀,p⟩ c) :
    c.engine.state = .replay (reports c.engine.trace) ∧
      (∀ d k, c.engine.state.get d k =
        lastWrite ((reports c.engine.trace).map StateStore.write) (d,k)) ∧
      (∀ d k v, c.engine.state.get d k = some v → v.kind = k) ∧
      (∀ t ev depth, (t,Entry.notice (.eventReceived ev depth)) ∈ c.engine.trace →
        depth ≤ e₀.maxCascadeDepth) ∧
      ∀ c', Step π host c c' → c'.engine.state = c.engine.state ∨ ∃ d v depth rest,
        c.engine.queue = (.stateReported d v,depth) :: rest ∧ depth ≤ e₀.maxCascadeDepth ∧
          c'.engine.state = c.engine.state.set d v := by
  have hb := Run.wiring run
  have inv : c.engine.Replays ∧ c.engine.WithinBound := by
    clear hb
    induction run with
    | refl => exact ⟨fresh.replays,by simp [Engine.WithinBound,fresh.trace]⟩
    | tail _ step ih => exact ⟨step.replays ih.1,step.withinBound ih.2⟩
  refine ⟨inv.1,fun d k => ?_,fun d k v => StateStore.kind_of_get,fun t ev depth hm => ?_,
    fun c' step => ?_⟩
  · rw [inv.1]
    exact StateStore.get_replay _ d k
  · rw [← hb.maxCascadeDepth]
    exact inv.2 t ev depth hm
  · rw [← hb.maxCascadeDepth]
    exact step.state_cases

def lamp : DeviceId := ⟨0⟩

/-- One virtual lamp behind the first free adapter slot. -/
def lampEngine : Engine VirtualDeviceAdapter MockNorthbound :=
  (Engine.new.addAdapter {}).1.bindDevice lamp 1

theorem lampEngine_fresh : lampEngine.Fresh := (Engine.Fresh.new.addAdapter _).bindDevice _ _

/-- A requested switch reaches the store through the echo of the lamp alone. -/
theorem requested_lamp_is_reported : ∃ c : Config VirtualDeviceAdapter MockNorthbound,
    Run .identity .any ⟨lampEngine,.wired⟩ c ∧ c.engine.queue = [] ∧
      c.engine.state.get lamp .switch = some (.switch true) ∧
      c.engine.state = .replay (reports c.engine.trace) := by
  obtain ⟨e,h,hs⟩ : ∃ e, Engine.inject .identity 3 (.requestedChange lamp (.set (.switch true)))
      lampEngine = .ok e ∧ e.state.get lamp .switch = some (.switch true) := ⟨_,rfl,by decide⟩
  obtain ⟨run,idle⟩ := inject_run .any .wired trivial rfl (by decide) h
  exact ⟨_,run,idle,hs,(store_is_reported_reality lampEngine_fresh run).1⟩

end Domiform
