import Domiform.Engine.Marks
import Domiform.Library.Rising
import Domiform.Replay
import Domiform.Waiting

/-! Edge triggers. A rule on an edge matches at the reports with which its predicate starts to hold,
and at nothing else. -/
namespace Domiform
open Library Relation

/-- Whether a value meets the predicate of an edge trigger. -/
def Trigger.satisfied (t : Trigger) (v : CapabilityState) : Bool :=
  match t with
  | changed _ _ target => v.asBool == some target
  | crosses _ _ bound dir => (v.asI64.map (dir.satisfied bound)).getD false
  | _ => false

/-- An edge trigger matches a report of its capability that rises over the value before. -/
theorem Trigger.matchesEvent_watched {t : Trigger} {d : DeviceId} {k : CapabilityKind}
    (watched : t.watched = some (d,k)) {ev : Event} {prior : Option CapabilityState} :
    t.matchesEvent ev prior = true ↔
      ∃ v, ev = .stateReported d v ∧ v.kind = k ∧ rises t.satisfied prior v = true := by
  have own (v : CapabilityState) (hk : v.kind = k) :
      t.matchesEvent (.stateReported d v) prior = rises t.satisfied prior v := by
    cases t with
    | changed device kind target =>
      cases watched
      cases prior <;> simp [matchesEvent,rises,satisfied,hk,bne]
    | crosses device kind bound dir =>
      cases watched
      cases prior <;> cases hv : v.asI64 <;> simp [matchesEvent,rises,satisfied,hk,hv]
    | _ => cases watched
  constructor
  · intro h
    obtain ⟨d',v,rfl,hw⟩ := matchesEvent_edge (by rw [watched]; rfl) h
    obtain ⟨rfl,rfl⟩ := Prod.mk.inj (Option.some.inj (watched.symm.trans hw))
    exact ⟨v,rfl,rfl,(own v rfl).symm.trans h⟩
  · rintro ⟨v,rfl,hk,h⟩
    exact (own v hk).trans h

/-- The values reported of a capability, in order. -/
def valuesOf (d : DeviceId) (k : CapabilityKind) (rs : List (DeviceId × CapabilityState)) :
    List CapabilityState :=
  rs.filterMap fun x => if x.1 = d ∧ x.2.kind = k then some x.2 else none

/-- The store holds the value reported last. -/
theorem StateStore.get_replay_eq_getLast (rs : List (DeviceId × CapabilityState)) (d : DeviceId)
    (k : CapabilityKind) : (replay rs).get d k = (valuesOf d k rs).getLast? := by
  induction rs using List.reverseRecOn with
  | nil => rfl
  | append_singleton rs x ih =>
    rw [replay_concat,get_set,valuesOf,List.filterMap_append,← valuesOf]
    by_cases h : x.1 = d ∧ x.2.kind = k
    · rw [if_pos ⟨h.1.symm,h.2.symm⟩]
      simp [h]
    · rw [if_neg fun hc => h ⟨hc.1.symm,hc.2.symm⟩,ih]
      simp [h]

/-- What an entry says about a capability and a rule: a value that was reported, or that the rule
matched. -/
def Entry.pulse (d : DeviceId) (k : CapabilityKind) (id : RuleId) :
    Entry → Option (Pulse CapabilityState)
  | .notice (.eventReceived (.stateReported device v) _) =>
    if device = d ∧ v.kind = k then some (.value v) else none
  | .notice (.ruleConsidered rule _ _) => if rule = id then some .rise else none
  | _ => none

/-- The history of a capability and a rule. -/
def pulseTrace (d : DeviceId) (k : CapabilityKind) (id : RuleId) (tr : List (Millis × Entry)) :
    List (Pulse CapabilityState) :=
  tr.filterMap fun x => x.2.pulse d k id

def RuleMark.pulse (id : RuleId) : RuleMark → Option (Pulse CapabilityState)
  | considered rule _ _ => if rule = id then some .rise else none
  | firing _ => none

/-- Behind a received event there are the marks of the rules alone. -/
theorem Entry.pulse_of_isBus {x : Entry} (h : x.isBus = false) (d : DeviceId) (k : CapabilityKind)
    (id : RuleId) : x.pulse d k id = x.ruleMark.bind (RuleMark.pulse id) := by
  cases x with
  | notice n =>
    cases n with
    | eventReceived => cases h
    | _ => rfl
  | _ => rfl

section Marks
variable {A N : Type} {e : Engine A N} {d : DeviceId} {k : CapabilityKind} {r : Rule}

/-- The rule is marked once among the rules that match, if it is one of them. -/
theorem pulses_of_matched (distinct : e.RulesDistinct) (hr : r ∈ e.rules) (ev : Event) :
    (e.matched ev).filterMap (fun r' => if r'.id = r.id then some Pulse.rise else none) =
      if r.trigger.matchesEvent ev (e.prior ev) then [(Pulse.rise : Pulse CapabilityState)]
      else [] := by
  obtain ⟨xs,ys,hl⟩ := List.append_of_mem hr
  have other (zs : List Rule) (hz : ∀ r' ∈ zs, r' ∈ xs ++ ys) :
      (zs.filter fun r' => r'.trigger.matchesEvent ev (e.prior ev)).filterMap
        (fun r' => if r'.id = r.id then some (Pulse.rise : Pulse CapabilityState) else none) =
          [] := by
    rw [List.filterMap_eq_nil_iff]
    intro r' hm
    refine if_neg fun hid => ?_
    have hnodup := distinct
    rw [Engine.RulesDistinct,hl,List.map_append,List.map_cons,List.nodup_middle,
      List.nodup_cons,← List.map_append] at hnodup
    exact hnodup.1 (hid ▸ List.mem_map_of_mem (hz r' (List.mem_filter.mp hm).1))
  rw [Engine.matched,hl,List.filter_append,List.filter_cons,List.filterMap_append,
    other xs fun _ h => List.mem_append_left _ h,List.nil_append]
  split_ifs with h
  · rw [List.filterMap_cons,if_pos rfl,other ys fun _ h => List.mem_append_right _ h]
  · exact other ys fun _ h => List.mem_append_right _ h

/-- The rule matched at the rises of the capability's values. -/
def Engine.MatchesRises (e : Engine A N) (d : DeviceId) (k : CapabilityKind) (r : Rule) : Prop :=
  pulseTrace d k r.id e.trace =
    pulses r.trigger.satisfied none (valuesOf d k (reports e.trace))

/-- Of all events, the rule matches the rising reports of its capability. -/
theorem Engine.matches_iff {ev : Event} {depth : ℕ} (replays : e.Replays) (hr : r ∈ e.rules)
    (watched : r.trigger.watched = some (d,k)) :
    e.Considers ev depth ∧ r ∈ e.matched ev ↔ ∃ v, ev = .stateReported d v ∧ v.kind = k ∧
      depth ≤ e.maxCascadeDepth ∧
      rises r.trigger.satisfied (valuesOf d k (reports e.trace)).getLast? v = true := by
  have stored : e.state.get d k = (valuesOf d k (reports e.trace)).getLast? := by
    rw [replays]
    exact StateStore.get_replay_eq_getLast _ d k
  rw [mem_matched,Trigger.matchesEvent_watched watched]
  constructor
  · rintro ⟨⟨le,-,-⟩,-,v,rfl,rfl,h⟩
    exact ⟨v,rfl,rfl,le,by rwa [← stored]⟩
  · rintro ⟨v,rfl,rfl,le,h⟩
    exact ⟨⟨le,rfl,rfl⟩,hr,v,rfl,rfl,by rwa [prior,stored]⟩

variable [Adapter A] [NorthboundAdapter N] {π : HashOrder} {fuel depth : ℕ} {ev : Event}
  {e' : Engine A N}

/-- What one event adds to the history: the report, and the mark of the rule if it matched. -/
theorem Engine.pulseTrace_process (distinct : e.RulesDistinct) (hr : r ∈ e.rules)
    (le : depth ≤ e.maxCascadeDepth) (h : process π fuel ev depth e = .ok e') :
    pulseTrace d k r.id e'.trace = pulseTrace d k r.id e.trace ++
      ((Entry.notice (.eventReceived ev depth)).pulse d k r.id).toList ++
      if e.Considers ev depth ∧ r.trigger.matchesEvent ev (e.prior ev) = true then [.rise]
      else [] := by
  obtain ⟨xs,hx,hxs⟩ := (process_processed h).history le
  have hmarks : xs.filterMap (Entry.pulse d k r.id) =
      (xs.filterMap Entry.ruleMark).filterMap (RuleMark.pulse r.id) := by
    rw [List.filterMap_filterMap]
    exact List.filterMap_congr fun x hm => Entry.pulse_of_isBus (hxs x hm).1 d k r.id
  have hgrow : e'.marks = e.marks ++ xs.filterMap Entry.ruleMark := by
    rw [marks,hx,List.filterMap_append,List.filterMap_cons,List.filterMap_map]
    rfl
  have htrace : pulseTrace d k r.id e'.trace = pulseTrace d k r.id e.trace ++
      ((Entry.notice (.eventReceived ev depth)).pulse d k r.id).toList ++
        xs.filterMap (Entry.pulse d k r.id) := by
    rw [pulseTrace,hx,List.filterMap_append,List.filterMap_cons,List.filterMap_map,
      List.append_assoc]
    cases (Entry.notice (.eventReceived ev depth)).pulse d k r.id <;> rfl
  rw [htrace,hmarks]
  congr 1
  by_cases shown : e.Considers ev depth
  · have hm := marks_of_considers shown h
    rw [hgrow,List.append_assoc] at hm
    rw [List.append_cancel_left hm,List.filterMap_append,List.filterMap_map,List.filterMap_map]
    have firing : ((e.met ev).filter fun r => r.forDuration.isNone).filterMap
        (RuleMark.pulse r.id ∘ fun r => .firing r.id) = [] := by
      rw [List.filterMap_eq_nil_iff]
      exact fun _ _ => rfl
    rw [firing,List.append_nil]
    refine (pulses_of_matched distinct hr ev).trans ?_
    simp [shown]
  · have nothing : (xs.filterMap Entry.ruleMark).filterMap (RuleMark.pulse r.id) = [] := by
      rcases marks_of_not_considers shown h with ⟨hm,-⟩ | ⟨key,r',-,-,-,-,hm⟩
      · rw [hgrow,List.append_right_eq_self] at hm
        rw [hm,List.filterMap_nil]
      · rw [hgrow] at hm
        rw [List.append_cancel_left hm]
        rfl
    rw [nothing,if_neg fun hc => shown hc.1]

theorem Engine.reports_process (le : depth ≤ e.maxCascadeDepth)
    (h : process π fuel ev depth e = .ok e') : reports e'.trace =
      reports e.trace ++ (Entry.notice (.eventReceived ev depth)).report.toList := by
  obtain ⟨xs,hx,hxs⟩ := (process_processed h).history le
  rw [hx,reports_append,reports_cons,reports_of_isBus fun x hm => (hxs x hm).1,List.append_nil]

theorem Engine.MatchesRises.process (inv : e.MatchesRises d k r) (replays : e.Replays)
    (distinct : e.RulesDistinct) (hr : r ∈ e.rules) (watched : r.trigger.watched = some (d,k))
    (h : process π fuel ev depth e = .ok e') : e'.MatchesRises d k r := by
  by_cases le : depth ≤ e.maxCascadeDepth
  · have hm := @Engine.matches_iff _ _ e d k r ev depth replays hr watched
    rw [mem_matched,and_iff_right hr] at hm
    rw [MatchesRises,pulseTrace_process distinct hr le h,reports_process le h,inv]
    by_cases own : ∃ v, ev = .stateReported d v ∧ v.kind = k
    · obtain ⟨v,rfl,rfl⟩ := own
      have reported : valuesOf d v.kind (reports e.trace ++
          (Entry.notice (.eventReceived (.stateReported d v) depth)).report.toList) =
            valuesOf d v.kind (reports e.trace) ++ [v] := by
        simp [valuesOf,Entry.report]
      have received : (Entry.notice (.eventReceived (.stateReported d v) depth)).pulse d v.kind
          r.id = some (.value v) := if_pos ⟨rfl,rfl⟩
      have rising : e.Considers (.stateReported d v) depth ∧
          r.trigger.matchesEvent (.stateReported d v) (e.prior (.stateReported d v)) = true ↔
          rises r.trigger.satisfied (valuesOf d v.kind (reports e.trace)).getLast? v = true := by
        rw [hm]
        constructor
        · rintro ⟨_,⟨⟩,-,-,h⟩
          exact h
        · exact fun h => ⟨v,rfl,rfl,le,h⟩
      rw [reported,received,pulses_concat,Option.or_none,if_congr rising rfl rfl,List.append_assoc]
      rfl
    · have reported : valuesOf d k (reports e.trace ++
          (Entry.notice (.eventReceived ev depth)).report.toList) =
            valuesOf d k (reports e.trace) := by
        rw [valuesOf,List.filterMap_append,← valuesOf,List.append_right_eq_self]
        cases ev with
        | stateReported d' v =>
          have hne : ¬(d' = d ∧ v.kind = k) := by
            rintro ⟨rfl,hk⟩
            exact own ⟨v,rfl,hk⟩
          simp [Entry.report,hne]
        | _ => rfl
      have received : (Entry.notice (.eventReceived ev depth)).pulse d k r.id = none := by
        cases ev with
        | stateReported d' v =>
          refine if_neg ?_
          rintro ⟨rfl,hk⟩
          exact own ⟨v,rfl,hk⟩
        | _ => rfl
      have unmatched : ¬(e.Considers ev depth ∧ r.trigger.matchesEvent ev (e.prior ev) = true) := by
        rw [hm]
        rintro ⟨v,hev,hk,-⟩
        exact own ⟨v,hev,hk⟩
      rw [reported,received,if_neg unmatched]
      simp
  · cases process_processed h with
    | dropped =>
      rw [MatchesRises] at inv
      simp [MatchesRises,pulseTrace,notify,record,Entry.pulse,Entry.report] at inv ⊢
      exact inv
    | _ => contradiction

end Marks

variable {A N : Type} [Adapter A] [NorthboundAdapter N] {π : HashOrder} {host : Host N}
  {c c' : Config A N} {d : DeviceId} {k : CapabilityKind} {r : Rule}

theorem Step.matchesRises (inv : c.engine.MatchesRises d k r) (replays : c.engine.Replays)
    (distinct : c.engine.RulesDistinct) (hr : r ∈ c.engine.rules)
    (watched : r.trigger.watched = some (d,k)) (step : Step π host c c') :
    c'.engine.MatchesRises d k r := by
  cases step with
  | @process e e' p ev depth rest fuel next h =>
    have inv' : ({ e with queue := rest } : Engine A N).MatchesRises d k r := inv
    exact inv'.process replays distinct hr watched h
  | start | advance =>
    simpa [Engine.MatchesRises,pulseTrace,Engine.record,Entry.pulse,Entry.report] using inv
  | _ => exact inv

/-- In every run, whatever event comes next, a rule on an edge matches it exactly if it is a report
with which the predicate starts to hold; and the history of the rule is that of the values reported
of its capability. -/
theorem edges_match_rises {e₀ : Engine A N} {p : Phase} (fresh : e₀.Fresh)
    (run : Run π host ⟨e₀,p⟩ c) (hr : r ∈ e₀.rules) (watched : r.trigger.watched = some (d,k)) :
    (∀ ev depth, c.engine.Considers ev depth ∧ r ∈ c.engine.matched ev ↔
      ∃ v, ev = .stateReported d v ∧ v.kind = k ∧ depth ≤ e₀.maxCascadeDepth ∧
        rises r.trigger.satisfied (valuesOf d k (reports c.engine.trace)).getLast? v = true) ∧
    (e₀.RulesDistinct → pulseTrace d k r.id c.engine.trace =
      pulses r.trigger.satisfied none (valuesOf d k (reports c.engine.trace))) := by
  have wiring := Run.wiring run
  have replays : c.engine.Replays := (store_is_reported_reality fresh run).1
  constructor
  · intro ev depth
    have hm := @Engine.matches_iff _ _ c.engine d k r ev depth replays
      (by rw [wiring.rules]; exact hr) watched
    rw [wiring.maxCascadeDepth] at hm
    exact hm
  · intro distinct
    clear wiring replays
    induction run with
    | refl =>
      rw [fresh.trace]
      rfl
    | tail run step ih =>
      have wiring := Run.wiring run
      exact step.matchesRises ih (store_is_reported_reality fresh run).1
        (distinct.of_wiring wiring) (by rw [wiring.rules]; exact hr) watched

/-- A rule on the lamp being switched on. -/
def watchedLamp : Engine VirtualDeviceAdapter MockNorthbound :=
  lampEngine.addRule ⟨⟨0⟩,"on",.changed lamp .switch true,.always,[],none⟩

theorem watchedLamp_fresh : watchedLamp.Fresh := lampEngine_fresh.addRule _

/-- The lamp is switched on, said to be on again, and switched off. -/
theorem watchedLamp_matches_once : ∃ c, Run .identity .any ⟨watchedLamp,.wired⟩ c ∧
    c.engine.queue = [] ∧ pulseTrace lamp .switch ⟨0⟩ c.engine.trace =
      [.value (.switch true),.rise,.value (.switch true),.value (.switch false)] := by
  obtain ⟨e₁,h₁,e₂,h₂,e₃,h₃,hv⟩ : ∃ e₁, watchedLamp.inject .identity 3
      (.stateReported lamp (.switch true)) = .ok e₁ ∧
      ∃ e₂, e₁.inject .identity 3 (.stateReported lamp (.switch true)) = .ok e₂ ∧
      ∃ e₃, e₂.inject .identity 3 (.stateReported lamp (.switch false)) = .ok e₃ ∧
        valuesOf lamp .switch (reports e₃.trace) =
          [.switch true,.switch true,.switch false] := ⟨_,rfl,_,rfl,_,rfl,by decide⟩
  obtain ⟨run₁,q₁⟩ := inject_run .any .wired trivial rfl (by decide) h₁
  obtain ⟨run₂,q₂⟩ := inject_run .any .wired trivial q₁ (by decide) h₂
  obtain ⟨run₃,q₃⟩ := inject_run .any .wired trivial q₂ (by decide) h₃
  have run := (run₁.trans run₂).trans run₃
  refine ⟨_,run,q₃,?_⟩
  have history := (edges_match_rises watchedLamp_fresh run (List.mem_singleton_self _) rfl).2
    (List.nodup_singleton _)
  rw [hv] at history
  exact history

end Domiform
