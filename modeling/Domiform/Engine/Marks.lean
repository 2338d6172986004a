import Domiform.Engine.Run

/-! What becomes of the rules. An event on the ordinary path is shown to every rule it matches, and
the commands of those that are met and need not wait are dispatched; besides that, only a wait that
ends dispatches the commands of a rule. -/
namespace Domiform
open Library Relation

/-- What an entry of the history says about a rule. -/
inductive RuleMark
  | considered (rule : RuleId) (truth : Truth) (fired : Bool)
  | firing (rule : RuleId)
  deriving DecidableEq

def Entry.ruleMark : Entry → Option RuleMark
  | .notice (.ruleConsidered rule truth fired) => some (.considered rule truth fired)
  | .firing rule _ => some (.firing rule)
  | _ => none

theorem Entry.ruleMark_of_isDispatch {x : Entry} (h : x.isDispatch = true) : x.ruleMark = none := by
  cases x with
  | notice n => cases n <;> first | rfl | cases h
  | firing rule state => cases h
  | _ => rfl

namespace Engine
variable {A N : Type}

def marks (e : Engine A N) : List RuleMark := e.trace.filterMap fun x => x.2.ruleMark

/-- The rules that the event matches. -/
def matched (e : Engine A N) (ev : Event) : List Rule :=
  e.rules.filter fun r => r.trigger.matchesEvent ev (e.prior ev)

/-- What the condition of a rule amounts to once the event was folded. -/
def verdict (e : Engine A N) (ev : Event) (r : Rule) : Truth := r.condition.eval (fold e.state ev)

/-- The rules that the event matches and whose condition is met. -/
def met (e : Engine A N) (ev : Event) : List Rule :=
  (e.matched ev).filter fun r => (e.verdict ev r).isTrue

/-- The rules are only shown what is neither dropped nor kept to the engine nor a request. -/
def Considers (e : Engine A N) (ev : Event) (depth : ℕ) : Prop :=
  depth ≤ e.maxCascadeDepth ∧ e.intercepts ev = false ∧ isRequest ev = false

instance (e : Engine A N) (ev : Event) (depth : ℕ) : Decidable (e.Considers ev depth) :=
  inferInstanceAs (Decidable (_ ∧ _ ∧ _))

theorem mem_matched {e : Engine A N} {ev : Event} {r : Rule} :
    r ∈ e.matched ev ↔ r ∈ e.rules ∧ r.trigger.matchesEvent ev (e.prior ev) = true :=
  List.mem_filter

theorem mem_met {e : Engine A N} {ev : Event} {r : Rule} :
    r ∈ e.met ev ↔ r ∈ e.matched ev ∧ e.verdict ev r = .true := by
  rw [met,List.mem_filter,Truth.isTrue_iff]

section Frames
variable {e e' : Engine A N}

theorem marks_append {xs : List Entry} (h : e'.trace = e.trace ++ xs.map fun x => (e.now,x)) :
    e'.marks = e.marks ++ xs.filterMap Entry.ruleMark := by
  rw [marks,h,List.filterMap_append,List.filterMap_map]
  rfl

theorem marks_record (e : Engine A N) (x : Entry) :
    (e.record x).marks = e.marks ++ x.ruleMark.toList := by
  rw [marks,record,List.filterMap_append]
  cases hx : x.ruleMark <;> simp [marks,hx]

theorem marks_received (e : Engine A N) (ev : Event) (depth : ℕ) :
    (e.received ev depth).marks = e.marks := by
  rw [received,notify,marks_record]
  simp [Entry.ruleMark]

theorem marks_of_trace (h : e'.trace = e.trace) : e'.marks = e.marks := by
  rw [marks,h,marks]

theorem cancelForTimer_trace (e : Engine A N) (rule : RuleId) :
    (e.cancelForTimer rule).trace = e.trace := by
  unfold cancelForTimer
  split <;> rfl

theorem armForTimer_trace (e : Engine A N) (rule : RuleId) (after : Millis) :
    (e.armForTimer rule after).trace = e.trace := by
  unfold armForTimer
  split <;> rfl

theorem marks_foldl {α : Type} {f : Engine A N → α → Engine A N}
    (hf : ∀ e a, (f e a).marks = e.marks) (xs : List α) (e : Engine A N) :
    (xs.foldl f e).marks = e.marks := by
  induction xs generalizing e with
  | nil => rfl
  | cons a xs ih => exact (ih (f e a)).trans (hf e a)

theorem marks_considerRules (e : Engine A N) (ev : Event) (prior : Option CapabilityState) :
    (e.considerRules ev prior).1.marks = e.marks ++
      (e.rules.filter fun r => r.trigger.matchesEvent ev prior).map fun r =>
        .considered r.id (r.condition.eval e.state) (r.condition.eval e.state).isTrue := by
  rw [considerRules_fst,marks,List.filterMap_append,List.filterMap_map,← marks]
  congr 1
  rw [← List.filterMap_eq_map]
  rfl

variable [Adapter A]

theorem marks_dispatched {depth : ℕ} (h : Dispatched depth e e') : e'.marks = e.marks := by
  obtain ⟨xs,hx,hxs⟩ := h.trace
  rw [marks_append hx,List.append_right_eq_self,List.filterMap_eq_nil_iff]
  exact fun x hm => Entry.ruleMark_of_isDispatch (hxs x hm)

theorem marks_fire {fuel depth : ℕ} {rule : Rule} (h : fire fuel rule depth e = .ok e') :
    e'.marks = e.marks ++ [.firing rule.id] := by
  have hd := dispatchAll_acts (fun _ => True) (fun _ _ => trivial) (fun _ _ _ _ _ => trivial) h
  rw [marks_dispatched (acts_frame hd),marks_record]
  rfl

theorem fire_pendingFor {fuel depth : ℕ} {rule : Rule} (h : fire fuel rule depth e = .ok e') :
    e'.pendingFor = e.pendingFor := by
  have hd := dispatchAll_acts (fun _ => True) (fun _ _ => trivial) (fun _ _ _ _ _ => trivial) h
  exact (acts_frame hd).pendingFor

/-- The rules that fire at once leave their marks in order. -/
theorem marks_fireAll {fuel depth : ℕ} {rules : List Rule}
    (h : rules.foldlM (fun e r => fire fuel r depth e) e = .ok e') :
    e'.marks = e.marks ++ rules.map fun r => .firing r.id := by
  induction rules generalizing e with
  | nil =>
    cases h
    simp
  | cons r rules ih =>
    obtain ⟨e₁,h₁,h₂⟩ := bind_ok_iff.mp h
    rw [ih h₂,marks_fire h₁]
    simp

theorem marks_runFired {fuel depth : ℕ} {fired : List Rule}
    (h : runFired fuel fired depth e = .ok e') :
    e'.marks = e.marks ++
      (fired.filter fun r => r.forDuration.isNone).map fun r => .firing r.id := by
  have armed : (armAll fired e).marks = e.marks :=
    armAll_induct (I := fun b => b.marks = e.marks) fired
      (fun r _ after _ b hb => (marks_of_trace (armForTimer_trace b r.id after)).trans hb) rfl
  rw [marks_fireAll h,← armed]
  rfl

variable [NorthboundAdapter N]

omit [Adapter A] in
theorem marks_foldState (e : Engine A N) (ev : Event) : (e.foldState ev).marks = e.marks := by
  cases ev with
  | stateReported device state =>
    apply (marks_record e (.notice (.stateFolded device state))).trans
    simp [Entry.ruleMark]
  | _ => rfl

omit [Adapter A] in
theorem marks_refan (e : Engine A N) (device : DeviceId) (kind : CapabilityKind) :
    (e.refan device kind).marks = e.marks := by
  unfold refan
  split
  · apply (marks_record e (.notice (.stateFolded device _))).trans
    simp [Entry.ruleMark]
  · rfl

/-- On the ordinary path every matched rule is considered, and those that are met and need not wait
are fired. -/
theorem marks_react {π : HashOrder} {fuel depth : ℕ} {ev : Event}
    (h : react π fuel ev depth e = .ok e') : e'.marks = e.marks ++
      ((e.matched ev).map fun r => .considered r.id (e.verdict ev r) (e.verdict ev r).isTrue) ++
        ((e.met ev).filter fun r => r.forDuration.isNone).map fun r => .firing r.id := by
  obtain ⟨e₂,h₂,-,h⟩ := react_cases h
  have hi : Internal (fun _ => True) 0 (e.foldState ev) e₂ := .of_reverted h₂
  have hrules : e₂.rules = e.rules := hi.rules.trans (by cases ev <;> rfl)
  have hstate : e₂.state = fold e.state ev := hi.state.trans (foldState_state e ev)
  have hmarks : e₂.marks = e.marks := by
    refine Eq.trans ?_ (marks_foldState e ev)
    rcases h₂ with rfl | rfl
    · rfl
    · exact marks_foldl (fun e r => marks_of_trace (cancelForTimer_trace e r)) _ _
  rw [marks_runFired h,marks_considerRules,hmarks,hrules,hstate]
  simp only [considerRules,hrules,hstate]
  rfl

/-- No rule was marked, and no wait has begun. -/
def Unmarked (e e' : Engine A N) : Prop :=
  e'.marks = e.marks ∧ (e'.pendingFor = e.pendingFor ∨
    ∃ rule, e'.pendingFor = e.pendingFor.erase rule)

/-- The rule that waited for the key was fired, and waits no longer. -/
def Released (e e' : Engine A N) (key : TimerKey) (r : Rule) : Prop :=
  r ∈ e.rules ∧ e.pendingFor.lookup r.id = some ⟨key⟩ ∧
    e'.pendingFor = e.pendingFor.erase r.id ∧ e'.marks = e.marks ++ [.firing r.id]

omit [NorthboundAdapter N] in
theorem marks_fireElapsedFor {π : HashOrder} {fuel : ℕ} {key : TimerKey}
    (h : fireElapsedFor π fuel key e = .ok e') :
    e.Unmarked e' ∨ ∃ r, e.Released e' key r := by
  obtain rfl | ⟨id,waiting,h⟩ := fireElapsedFor_cases h
  · exact .inl ⟨rfl,.inl rfl⟩
  obtain rfl | ⟨rule,rfl,found,-,h⟩ := h
  · exact .inl ⟨rfl,.inr ⟨id,rfl⟩⟩
  · exact .inr ⟨rule,List.mem_of_find?_eq_some found,waiting,fire_pendingFor h,
      (marks_fire h).trans rfl⟩

/-- No time passes while an event is processed, and the history only grows. -/
theorem Processed.grows {π : HashOrder} {fuel depth : ℕ} {ev : Event}
    (h : Processed π fuel depth e ev e') :
    e'.now = e.now ∧ ∃ xs : List Entry, e'.trace = e.trace ++ xs.map fun x => (e.now,x) := by
  by_cases le : depth ≤ e.maxCascadeDepth
  · obtain ⟨xs,hx,-⟩ := h.history le
    refine ⟨(h.internal le).now.trans (by cases ev <;> rfl),_ :: xs,hx⟩
  · cases h with
    | dropped => exact ⟨rfl,[.notice (.cascadeDropped ev depth)],rfl⟩
    | _ => contradiction

/-- What is not shown to the rules fires at most the rule whose wait it ends. -/
theorem marks_of_not_considers {π : HashOrder} {fuel depth : ℕ} {ev : Event}
    (hidden : ¬e.Considers ev depth) (h : process π fuel ev depth e = .ok e') :
    e.Unmarked e' ∨ ∃ key r, ev = .timerElapsed key ∧ e.Released e' key r := by
  cases process_processed h with
  | dropped ev deep =>
    refine .inl ⟨?_,.inl rfl⟩
    rw [notify,marks_record]
    simp [Entry.ruleMark]
  | retried key p e' le pending h =>
    have hf := dispatchAt_frame h
    exact .inl ⟨(marks_dispatched hf).trans (marks_received _ _ _),.inl hf.pendingFor⟩
  | elapsed key e' le fresh own h =>
    rcases marks_fireElapsedFor h with ⟨hm,hp⟩ | ⟨r,hr,hw,hp,hm⟩
    · exact .inl ⟨hm.trans (marks_received _ _ _),hp⟩
    · exact .inr ⟨key,r,rfl,hr,hw,hp,by rw [hm,marks_received]⟩
  | changed device desired e' le h =>
    simp only [requestChange] at h
    split at h
    · obtain ⟨e₁,h₁,h₂⟩ := bind_ok_iff.mp h
      cases h₂
      have hf := dispatchAt_frame h₁
      have hp : (e₁.refan device desired.kind).pendingFor = e₁.pendingFor := by
        unfold refan
        split <;> rfl
      exact .inl ⟨(marks_refan _ _ _).trans ((marks_dispatched hf).trans (marks_received _ _ _)),
        .inl (hp.trans hf.pendingFor)⟩
    · cases h
      have hp : ((e.received (.requestedChange device desired) depth).refan device
          desired.kind).pendingFor = e.pendingFor := by
        unfold refan
        split <;> rfl
      exact .inl ⟨(marks_refan _ _ _).trans (marks_received _ _ _),.inl hp⟩
  | activated scene e' le h =>
    have hf := dispatchAt_frame h
    exact .inl ⟨(marks_dispatched hf).trans (marks_received _ _ _),.inl hf.pendingFor⟩
  | reacted ev e' le ordinary report h => exact absurd ⟨le,ordinary,report⟩ hidden

/-- What the rules are shown is reacted to. -/
theorem react_of_considers {π : HashOrder} {fuel depth : ℕ} {ev : Event}
    (shown : e.Considers ev depth) (h : process π fuel ev depth e = .ok e') :
    react π fuel ev depth (e.received ev depth) = .ok e' := by
  obtain ⟨le,ordinary,report⟩ := shown
  cases process_processed h with
  | dropped ev deep => exact absurd le (not_le.mpr deep)
  | retried key p e' le pending h => simp [intercepts,pending] at ordinary
  | elapsed key e' le fresh own h => simp [intercepts,own] at ordinary
  | changed | activated => cases report
  | reacted ev e' le ordinary report h => exact h

theorem marks_of_considers {π : HashOrder} {fuel depth : ℕ} {ev : Event}
    (shown : e.Considers ev depth) (h : process π fuel ev depth e = .ok e') :
    e'.marks = e.marks ++
      ((e.matched ev).map fun r => .considered r.id (e.verdict ev r) (e.verdict ev r).isTrue) ++
        ((e.met ev).filter fun r => r.forDuration.isNone).map fun r => .firing r.id := by
  rw [marks_react (react_of_considers shown h),marks_received]
  rfl

end Frames

section Steps
variable [Adapter A] [NorthboundAdapter N] (π : HashOrder) (e : Engine A N)

@[simp] theorem marks_started : ((e.record .started).tickAdapters π).marks = e.marks := by
  simp [marks,Entry.ruleMark,record]

@[simp] theorem marks_advanced (dt : Millis) : ((e.elapse dt).tickAdapters π).marks = e.marks := by
  simp [marks,Entry.ruleMark]

end Steps
end Engine

variable {A N : Type} [Adapter A] [NorthboundAdapter N] {π : HashOrder} {host : Host N}
  {c c' : Config A N}

/-- A rule is only considered for an event on the ordinary path that matches it. -/
theorem Step.considered (step : Step π host c c') {id : RuleId} {truth : Truth} {fired : Bool}
    (h : RuleMark.considered id truth fired ∈ c'.engine.marks) :
    RuleMark.considered id truth fired ∈ c.engine.marks ∨ ∃ ev depth rest,
      c.engine.queue = (ev,depth) :: rest ∧ c.engine.Considers ev depth ∧
        ∃ r ∈ c.engine.matched ev, r.id = id := by
  cases step with
  | start =>
    rw [Engine.marks_started] at h
    exact .inl h
  | advance =>
    rw [Engine.marks_advanced] at h
    exact .inl h
  | synced | inject | addNorthbound => exact .inl h
  | @process e e' p ev depth rest fuel next hp =>
    by_cases shown : ({ e with queue := rest } : Engine A N).Considers ev depth
    · rw [Engine.marks_of_considers shown hp,List.mem_append,List.mem_append] at h
      rcases h with (h | h) | h
      · exact .inl h
      · obtain ⟨r,hr,he⟩ := List.mem_map.mp h
        cases he
        exact .inr ⟨ev,depth,rest,next,shown,r,hr,rfl⟩
      · obtain ⟨r,-,he⟩ := List.mem_map.mp h
        cases he
    · left
      rcases Engine.marks_of_not_considers shown hp with ⟨hm,-⟩ | ⟨key,r,-,-,-,-,hm⟩
      · rw [hm] at h
        exact h
      · rw [hm,List.mem_append,List.mem_singleton] at h
        exact h.resolve_right (by rintro ⟨⟩)

end Domiform
