import Domiform.Engine.Run

/-! Northbound mirrors. What an adapter hears through `state_folded` comes from three places: the
fold of a report, the fan after a request, and the replay at startup. After startup its last word
on every capability is the store's. -/
namespace Domiform
open Library Relation

namespace Northbound
variable {N : Type}

/-- The last value received for every capability is the store's. -/
def Coherent (nb : Northbound N) (s : StateStore) : Prop :=
  ∀ key, lastWrite (nb.received.map StateStore.write) key = s.get key.1 key.2

/-- Nothing was received for a capability the store does not hold. -/
def Within (nb : Northbound N) (s : StateStore) : Prop :=
  ∀ key, s.get key.1 key.2 = none → lastWrite (nb.received.map StateStore.write) key = none

theorem Coherent.within {nb : Northbound N} {s : StateStore} (h : nb.Coherent s) : nb.Within s :=
  fun key hk => (h key).trans hk

variable [NorthboundAdapter N] {nb : Northbound N} {s : StateStore}

/-- Hearing a report while it is folded keeps the mirror in step with the store. -/
theorem Coherent.stateFolded (h : nb.Coherent s) (d : DeviceId) (v : CapabilityState) :
    (nb.stateFolded d v).Coherent (s.set d v) := by
  intro key
  have hk := h key
  rw [Northbound.stateFolded,List.map_append,List.map_singleton,lastWrite_concat,
    StateStore.get_set,hk]
  simp only [StateStore.write,Prod.ext_iff,eq_comm]

theorem Within.stateFolded (h : nb.Within s) (d : DeviceId) (v : CapabilityState) :
    (nb.stateFolded d v).Within (s.set d v) := by
  intro key hs
  rw [StateStore.get_set] at hs
  split_ifs at hs with hk
  rw [Northbound.stateFolded,List.map_append,List.map_singleton,lastWrite_concat,h key hs,if_neg]
  rintro rfl
  exact hk ⟨rfl,rfl⟩

/-- Hearing what the store holds changes nothing. -/
theorem Coherent.hear (h : nb.Coherent s) {fans : List (DeviceId × CapabilityState)}
    (hf : ∀ x ∈ fans, s.get x.1 x.2.kind = some x.2) : (nb.hear fans).Coherent s := by
  intro key
  rw [received_hear,List.map_append,← h key]
  refine lastWrite_append_of_agree (fun w hw => ?_) key
  obtain ⟨x,hx,rfl⟩ := List.mem_map.mp hw
  exact (h _).trans (hf x hx)

theorem Within.hear (h : nb.Within s) {fans : List (DeviceId × CapabilityState)}
    (hf : ∀ x ∈ fans, s.get x.1 x.2.kind = some x.2) : (nb.hear fans).Within s := by
  intro key hs
  rw [received_hear,List.map_append,lastWrite_append,h key hs,Option.or_none,
    lastWrite_eq_none_iff]
  rintro w hw rfl
  obtain ⟨x,hx,rfl⟩ := List.mem_map.mp hw
  have := hf x hx
  simp only [StateStore.write] at hs
  simp [this] at hs

/-- The startup replay, in whatever order, makes a mirror coherent. -/
theorem Within.sync (h : nb.Within s) (π : HashOrder) (n : ℕ) :
    (nb.hear (s.iter π n)).Coherent s := by
  intro key
  rw [received_hear,List.map_append]
  refine lastWrite_append_map (fun k v => ?_) (fun k => h k) key
  simp only [List.mem_map,StateStore.write]
  constructor
  · rintro ⟨⟨d,v'⟩,hm,he⟩
    cases he
    exact StateStore.mem_iter.mp hm
  · intro hg
    have hk := StateStore.kind_of_get hg
    exact ⟨(k.1,v),StateStore.mem_iter.mpr (hk ▸ hg),by rw [hk]⟩

end Northbound

variable {A N : Type} [Adapter A] [NorthboundAdapter N]

/-- While an event is processed, northbound adapters hear the folded report, then only what the
store holds. -/
theorem Engine.Processed.northbound {π : HashOrder} {fuel depth : ℕ} {ev : Event}
    {e e' : Engine A N} (h : Processed π fuel depth e ev e') :
    e'.northbound = e.northbound ∧ e'.state = e.state ∨
      ∃ fans : List (DeviceId × CapabilityState),
        (∀ x ∈ fans, e'.state.get x.1 x.2.kind = some x.2) ∧
        (e'.state = e.state ∧
          e'.northbound = e.northbound.map (fun nb : Northbound N => nb.hear fans) ∨
        ∃ d v, e'.state = e.state.set d v ∧ e'.northbound =
          e.northbound.map fun nb : Northbound N => (nb.stateFolded d v).hear fans) := by
  by_cases le : depth ≤ e.maxCascadeDepth
  · obtain ⟨fans,hn,hf⟩ := (h.internal le).northbound
    rw [foldState_state] at hf
    refine .inr ⟨fans,by rwa [h.state le],?_⟩
    rw [h.state le,hn]
    cases ev with
    | stateReported d v =>
      exact .inr ⟨d,v,rfl,by simp [foldState,fanStateFolded,received,notify,record]⟩
    | _ => exact .inl ⟨rfl,rfl⟩
  · cases h with
    | dropped => exact .inl ⟨rfl,rfl⟩
    | _ => contradiction

/-- What folding and ticking keep holds of every registered northbound adapter. -/
theorem Run.northbound_invariant {π : HashOrder} {host : Host N} {P : Northbound N → Prop}
    (registers : ∀ n, host.registers n → P ⟨n,[]⟩)
    (folds : ∀ nb d v, P nb → P (nb.stateFolded d v))
    (ticks : ∀ (nb : Northbound N) now, P nb → P (nb.tick now).2) {c c' : Config A N}
    (run : Run π host c c') (h : ∀ nb ∈ c.engine.northbound, P nb) :
    ∀ nb ∈ c'.engine.northbound, P nb := by
  have hears (fans : List (DeviceId × CapabilityState)) (nb : Northbound N) (hp : P nb) :
      P (nb.hear fans) := by
    induction fans generalizing nb with
    | nil => exact hp
    | cons x xs ih => exact ih _ (folds nb x.1 x.2 hp)
  induction run with
  | refl => exact h
  | tail _ step ih =>
    cases step with
    | start | advance =>
      intro nb hm
      obtain ⟨nb',hm',rfl⟩ := List.mem_map.mp hm
      exact ticks nb' _ (ih nb' hm')
    | inject => exact ih
    | synced =>
      intro nb hm
      rw [Engine.sync_northbound] at hm
      obtain ⟨nb',hm',rfl⟩ := List.mem_map.mp hm
      exact hears _ nb' (ih nb' hm')
    | addNorthbound n may =>
      intro nb hm
      rcases List.mem_append.mp hm with hm | hm
      · exact ih nb hm
      · rw [List.mem_singleton.mp hm]
        exact registers n may
    | process fuel next hp =>
      intro nb hm
      rcases (Engine.process_processed hp).northbound with ⟨hn,-⟩ | ⟨fans,-,⟨-,hn⟩ | ⟨d,v,-,hn⟩⟩
      · rw [hn] at hm
        exact ih nb hm
      · rw [hn] at hm
        obtain ⟨nb',hm',rfl⟩ := List.mem_map.mp hm
        exact hears _ nb' (ih nb' hm')
      · rw [hn] at hm
        obtain ⟨nb',hm',rfl⟩ := List.mem_map.mp hm
        exact hears _ _ (folds nb' d v (ih nb' hm'))

/-- The mirrors of a configuration: all within the store, and those registered before the last
startup coherent with it. -/
structure Config.Mirrors (c : Config A N) : Prop where
  within : ∀ nb ∈ c.engine.northbound, nb.Within c.engine.state
  coherent : ∀ n, c.phase = .running n → n ≤ c.engine.northbound.length ∧
    ∀ nb ∈ c.engine.northbound.take n, nb.Coherent c.engine.state

omit [Adapter A] [NorthboundAdapter N] in
/-- A step that keeps both relations for every adapter keeps the mirrors. -/
theorem Config.Mirrors.map {e e' : Engine A N} {p : Phase} {f : Northbound N → Northbound N}
    (h : (⟨e,p⟩ : Config A N).Mirrors) (hn : e'.northbound = e.northbound.map f)
    (within : ∀ nb : Northbound N, nb.Within e.state → (f nb).Within e'.state)
    (coherent : ∀ nb : Northbound N, nb.Coherent e.state → (f nb).Coherent e'.state) :
    (⟨e',p⟩ : Config A N).Mirrors := by
  refine ⟨fun nb hm => ?_,fun n hp => ⟨?_,fun nb hm => ?_⟩⟩
  · simp only [hn] at hm
    obtain ⟨nb',hm',rfl⟩ := List.mem_map.mp hm
    exact within nb' (h.within nb' hm')
  · simpa [hn] using (h.coherent n hp).1
  · simp only [hn,← List.map_take] at hm
    obtain ⟨nb',hm',rfl⟩ := List.mem_map.mp hm
    exact coherent nb' ((h.coherent n hp).2 nb' hm')

theorem Step.mirrors {π : HashOrder} {host : Host N} {c c' : Config A N} (step : Step π host c c')
    (h : c.Mirrors) : c'.Mirrors := by
  cases step with
  | start =>
    refine ⟨fun nb hm => ?_,by simp⟩
    obtain ⟨nb',hm',rfl⟩ := List.mem_map.mp hm
    exact h.within nb' hm'
  | advance => exact h.map rfl (fun _ hw => hw) (fun _ hc => hc)
  | inject => exact ⟨h.within,h.coherent⟩
  | @synced e =>
    have hs : ∀ nb ∈ (e.syncNorthboundStartupState π).northbound, nb.Coherent e.state := by
      intro nb hm
      rw [Engine.sync_northbound] at hm
      obtain ⟨nb',hm',rfl⟩ := List.mem_map.mp hm
      exact (h.within nb' hm').sync π _
    refine ⟨fun nb hm => (hs nb hm).within,?_⟩
    rintro n ⟨⟩
    exact ⟨by simp [Engine.sync_northbound],fun nb hm => hs nb (List.mem_of_mem_take hm)⟩
  | @addNorthbound e p n =>
    refine ⟨fun nb hm => ?_,fun k hp => ?_⟩
    · rcases List.mem_append.mp hm with hm | hm
      · exact h.within nb hm
      · rw [List.mem_singleton.mp hm]
        exact fun _ _ => rfl
    · obtain ⟨hk,hc⟩ := h.coherent k hp
      refine ⟨?_,fun nb hm => hc nb ?_⟩
      · rw [Engine.addNorthbound,List.length_append]
        exact Nat.le_add_right_of_le hk
      · rwa [Engine.addNorthbound,List.take_append_of_le_length hk] at hm
  | process fuel next hp =>
    rcases (Engine.process_processed hp).northbound with
      ⟨hn,hs⟩ | ⟨fans,hf,⟨hs,hn⟩ | ⟨d,v,hs,hn⟩⟩
    · exact h.map (f := id) (by simpa using hn) (fun _ hw => hs ▸ hw) (fun _ hc => hs ▸ hc)
    · rw [hs] at hf
      refine h.map hn (fun nb hw => ?_) (fun nb hc => ?_)
      · rw [hs]
        exact hw.hear hf
      · rw [hs]
        exact hc.hear hf
    · rw [hs] at hf
      refine h.map hn (fun nb hw => ?_) (fun nb hc => ?_)
      · rw [hs]
        exact (hw.stateFolded d v).hear hf
      · rw [hs]
        exact (hc.stateFolded d v).hear hf

theorem Run.mirrors {π : HashOrder} {host : Host N} {e₀ : Engine A N} {c : Config A N}
    (fresh : e₀.Fresh) (run : Run π host ⟨e₀,.wired⟩ c) : c.Mirrors := by
  induction run with
  | refl =>
    refine ⟨fun nb hm key _ => ?_,by simp⟩
    rw [fresh.received nb hm]
    rfl
  | tail _ step ih => exact step.mirrors ih

end Domiform
