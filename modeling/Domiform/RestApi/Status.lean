import Domiform.Engine.Marks
import Domiform.RestApi
import Domiform.Waiting

/-! The status of the rules. The REST adapter hears the time and its sibling observer hears the
rules; in the mirror they share each rule has the time and the outcome of its last match. -/
namespace Domiform
open Library Relation

/-- What `GET /rules` reports for one rule. -/
structure RuleStatus where
  lastConsideredMs : Option Millis
  lastTruth : Option Truth
  lastFiredMs : Option Millis
  /-- A `u64`. -/
  fireCount : ℕ
  deriving DecidableEq

namespace RuleStatus

def default : RuleStatus := ⟨none,none,none,0⟩

/-- The counter is added to with `saturating_add`. -/
def considered (s : RuleStatus) (now : Millis) (truth : Truth) (fired : Bool) : RuleStatus :=
  if fired then ⟨some now,some truth,some now,min (s.fireCount+1) (2^64-1)⟩
  else ⟨some now,some truth,s.lastFiredMs,s.fireCount⟩

/-- The status after a rule was considered at these times with these outcomes. -/
def summary (xs : List (Millis × Truth)) : RuleStatus :=
  let fired := xs.filter fun x => x.2.isTrue
  ⟨xs.getLast?.map Prod.fst,xs.getLast?.map Prod.snd,fired.getLast?.map Prod.fst,
    min fired.length (2^64-1)⟩

theorem summary_concat (xs : List (Millis × Truth)) (x : Millis × Truth) :
    summary (xs ++ [x]) = (summary xs).considered x.1 x.2 x.2.isTrue := by
  rw [considered]
  cases h : x.2.isTrue with
  | true =>
    simp only [summary,List.filter_append,List.filter_singleton,h,List.getLast?_concat,cond_true,
      Option.map_some,List.length_append,List.length_singleton,if_true,mk.injEq,true_and]
    omega
  | false =>
    simp [summary,List.filter_append,h]

theorem summary_append (xs ys : List (Millis × Truth)) :
    summary (xs ++ ys) = ys.foldl (fun s x => s.considered x.1 x.2 x.2.isTrue) (summary xs) := by
  induction ys generalizing xs with
  | nil => rw [List.append_nil,List.foldl_nil]
  | cons y ys ih => rw [List.append_cons,ih,summary_concat,List.foldl_cons]

end RuleStatus

namespace RestApiObserver

/-- The outcome is stamped with the `now` of the shared mirror. -/
def ruleConsidered (now : Millis) (rules : HashMap RuleId RuleStatus) (rule : RuleId)
    (truth : Truth) (fired : Bool) : HashMap RuleId RuleStatus :=
  rules.upsert rule .default fun s => s.considered now truth fired

/-- The other callbacks only feed the stream. -/
def hear (now : Millis) (rules : HashMap RuleId RuleStatus) : Entry → HashMap RuleId RuleStatus
  | .notice (.ruleConsidered rule truth fired) => ruleConsidered now rules rule truth fired
  | _ => rules

def hearAll (now : Millis) (rules : HashMap RuleId RuleStatus) (xs : List (Millis × Entry)) :
    HashMap RuleId RuleStatus := xs.foldl (fun rules x => hear now rules x.2) rules

/-- What the observer makes of what became of a rule. -/
def hearMark (now : Millis) (rules : HashMap RuleId RuleStatus) :
    RuleMark → HashMap RuleId RuleStatus
  | .considered rule truth fired => ruleConsidered now rules rule truth fired
  | .firing _ => rules

theorem hearAll_eq (now : Millis) (rules : HashMap RuleId RuleStatus) (xs : List (Millis × Entry)) :
    hearAll now rules xs = (xs.filterMap fun x => x.2.ruleMark).foldl (hearMark now) rules := by
  induction xs generalizing rules with
  | nil => rfl
  | cons x xs ih =>
    have hx : hear now rules x.2 = x.2.ruleMark.toList.foldl (hearMark now) rules := by
      cases x.2 with
      | notice n => cases n <;> rfl
      | _ => rfl
    rw [hearAll,List.foldl_cons,← hearAll,ih,hx,List.filterMap_cons]
    cases x.2.ruleMark <;> rfl

theorem hearMark_firings (now : Millis) (rules : HashMap RuleId RuleStatus) (rs : List Rule) :
    (rs.map fun r => RuleMark.firing r.id).foldl (hearMark now) rules = rules := by
  induction rs with
  | nil => rfl
  | cons r rs ih => exact ih

end RestApiObserver

variable {A N M : Type}

/-- An event that is taken off the queue, and the engine that is about to process it. -/
structure Occasion (A N : Type) where
  engine : Engine A N
  event : Event
  depth : ℕ

namespace Occasion

/-- The event reaches the rules, and the trigger of this one matches it. -/
def Considers (o : Occasion A N) (r : Rule) : Prop :=
  o.engine.Considers o.event o.depth ∧
    r.trigger.matchesEvent o.event (o.engine.prior o.event) = true

instance (o : Occasion A N) (r : Rule) : Decidable (o.Considers r) :=
  inferInstanceAs (Decidable (_ ∧ _))

/-- When the event was processed, and what the condition of the rule came to. -/
def outcome (o : Occasion A N) (r : Rule) : Millis × Truth :=
  (o.engine.now,o.engine.verdict o.event r)

/-- The outcomes of the rules with an id. -/
def outcomes (o : Occasion A N) (id : RuleId) : List (Millis × Truth) :=
  (o.engine.rules.filter fun r => decide (r.id = id ∧ o.Considers r)).map o.outcome

end Occasion

def Engine.next (e : Engine A N) : Option (Occasion A N) :=
  match e.queue with
  | [] => none
  | (ev,depth) :: rest => some ⟨{ e with queue := rest },ev,depth⟩

/-- What the northbound adapter in slot `i` shares with its sibling and with the HTTP threads. -/
def Engine.shared (e : Engine A (RestApiAdapter ⊕ M)) (i : ℕ) : Mirror :=
  match e.northbound[i]? with
  | some ⟨.inl rest,_⟩ => rest.shared
  | _ => .default

/-- A host with a REST adapter in slot `i`, whose sibling observer has written `rules`; the history
lists the events processed since. -/
structure Observed (A M : Type) where
  config : Config A (RestApiAdapter ⊕ M)
  rules : HashMap RuleId RuleStatus
  history : List (Occasion A (RestApiAdapter ⊕ M))

namespace Observed

def ruleStatus (o : Observed A M) (rule : RuleId) : RuleStatus :=
  (o.rules.lookup rule).getD .default

/-- The outcomes of the rules with an id, in the order of the events. -/
def outcomes (o : Observed A M) (id : RuleId) : List (Millis × Truth) :=
  o.history.flatMap fun x => x.outcomes id

/-- After a step the observer has heard what the step added to the trace. -/
def after (o : Observed A M) (i : ℕ) (c : Config A (RestApiAdapter ⊕ M)) : Observed A M :=
  ⟨c,RestApiObserver.hearAll (c.engine.shared i).now o.rules
    (c.engine.trace.drop o.config.engine.trace.length),o.history ++ o.config.engine.next.toList⟩

/-- The REST adapter joins as `channel` makes it, before anything has run. -/
structure Registered (o : Observed A M) (i : ℕ) : Prop where
  fresh : o.config.engine.Fresh
  now : o.config.engine.now = 0
  slot : ∃ inbound, o.config.engine.northbound[i]? = some ⟨.inl ⟨.default,inbound⟩,[]⟩
  rules : o.rules = ∅
  history : o.history = []

end Observed

section Stamps
variable [NorthboundAdapter M]

/-- A REST adapter that last heard this time. -/
def Clocked (now : Millis) (nb : Northbound (RestApiAdapter ⊕ M)) : Prop :=
  ∃ rest, nb.adapter = .inl rest ∧ rest.shared.now = now

theorem Clocked.stateFolded {now : Millis} {nb : Northbound (RestApiAdapter ⊕ M)}
    (h : Clocked now nb) (d : DeviceId) (v : CapabilityState) :
    Clocked now (nb.stateFolded d v) := by
  obtain ⟨rest,hr,hn⟩ := h
  refine ⟨rest.stateFolded d v,?_,hn⟩
  simp only [Northbound.stateFolded,hr]
  rfl

theorem Clocked.hear {now : Millis} {nb : Northbound (RestApiAdapter ⊕ M)} (h : Clocked now nb)
    (fans : List (DeviceId × CapabilityState)) : Clocked now (nb.hear fans) := by
  induction fans generalizing nb with
  | nil => exact h
  | cons x fans ih => exact ih (h.stateFolded x.1 x.2)

theorem Clocked.tick {t : Millis} {nb : Northbound (RestApiAdapter ⊕ M)} (h : Clocked t nb)
    (now : Millis) : Clocked now (nb.tick now).2 := by
  obtain ⟨rest,hr,-⟩ := h
  refine ⟨(rest.tick now).2,?_,rfl⟩
  simp only [Northbound.tick,hr]
  rfl

/-- The mirror in slot `i` has the time of the engine. -/
def Engine.Stamped (e : Engine A (RestApiAdapter ⊕ M)) (i : ℕ) : Prop :=
  ∃ nb, e.northbound[i]? = some nb ∧ Clocked e.now nb

variable {e e' : Engine A (RestApiAdapter ⊕ M)} {i : ℕ}

omit [NorthboundAdapter M] in
theorem Engine.Stamped.shared (h : e.Stamped i) : (e.shared i).now = e.now := by
  obtain ⟨⟨adapter,received⟩,hi,rest,hr,hn⟩ := h
  dsimp only at hr
  rw [Engine.shared,hi,hr]
  exact hn

omit [NorthboundAdapter M] in
theorem Engine.Stamped.map {f : Northbound (RestApiAdapter ⊕ M) → Northbound (RestApiAdapter ⊕ M)}
    (h : e.Stamped i) (hn : e'.northbound = e.northbound.map f)
    (keeps : ∀ nb, Clocked e.now nb → Clocked e'.now (f nb)) : e'.Stamped i := by
  obtain ⟨nb,hi,hc⟩ := h
  refine ⟨f nb,?_,keeps nb hc⟩
  rw [hn,List.getElem?_map,hi]
  rfl

variable [Adapter A] {π : HashOrder} {host : Host (RestApiAdapter ⊕ M)}
  {c c' : Config A (RestApiAdapter ⊕ M)}

/-- The time goes on only where every adapter is told. -/
theorem Step.stamped (step : Step π host c c') (h : c.engine.Stamped i) : c'.engine.Stamped i := by
  cases step with
  | start => exact h.map rfl fun nb hc => hc.tick _
  | advance => exact h.map rfl fun nb hc => hc.tick _
  | synced => exact h.map (Engine.sync_northbound π _) fun nb hc => hc.hear _
  | inject => exact h
  | addNorthbound n =>
    obtain ⟨nb,hi,hc⟩ := h
    refine ⟨nb,?_,hc⟩
    obtain ⟨hlt,-⟩ := List.getElem?_eq_some_iff.mp hi
    exact (List.getElem?_append_left hlt).trans hi
  | @process e e' p ev depth rest fuel next hp =>
    have hp := Engine.process_processed hp
    have hnow : e'.now = e.now := hp.grows.1
    rcases hp.northbound with ⟨hn,-⟩ | ⟨fans,-,⟨-,hn⟩ | ⟨d,v,-,hn⟩⟩
    · refine Engine.Stamped.map h (f := id) (by simpa using hn) fun nb hc => ?_
      rw [hnow]
      exact hc
    · refine Engine.Stamped.map h hn fun nb hc => ?_
      rw [hnow]
      exact hc.hear fans
    · refine Engine.Stamped.map h hn fun nb hc => ?_
      rw [hnow]
      exact (hc.stateFolded d v).hear fans

end Stamps

section Outcomes
variable [Adapter A] [NorthboundAdapter N] {π : HashOrder} {fuel : ℕ} {e e' : Engine A N}

omit [Adapter A] [NorthboundAdapter N] in
/-- Of what was added to the trace the observer hears what became of the rules. -/
theorem RestApiObserver.hearAll_of_marks {seen : List (Millis × Entry)} {marks : List RuleMark}
    (ht : e'.trace = e.trace ++ seen) (hm : e'.marks = e.marks ++ marks) (now : Millis)
    (rules : HashMap RuleId RuleStatus) :
    hearAll now rules seen = marks.foldl (hearMark now) rules := by
  rw [Engine.marks,ht,List.filterMap_append] at hm
  rw [hearAll_eq,List.append_cancel_left hm]

omit [Adapter A] [NorthboundAdapter N] in
theorem Occasion.outcomes_of_not_considers {o : Occasion A N}
    (hidden : ¬o.engine.Considers o.event o.depth) (id : RuleId) : o.outcomes id = [] := by
  rw [outcomes,List.map_eq_nil_iff,List.filter_eq_nil_iff]
  intro r _ h
  exact hidden (of_decide_eq_true h).2.1

omit [Adapter A] [NorthboundAdapter N] in
theorem Occasion.outcomes_of_considers {o : Occasion A N}
    (shown : o.engine.Considers o.event o.depth) (id : RuleId) :
    o.outcomes id =
      ((o.engine.matched o.event).filter fun r => decide (r.id = id)).map o.outcome := by
  rw [outcomes,Engine.matched,List.filter_filter]
  congr 1
  refine List.filter_congr fun r _ => ?_
  rw [Bool.decide_and,Bool.eq_iff_iff,Bool.and_eq_true,Bool.and_eq_true,decide_eq_true_iff,
    decide_eq_true_iff]
  exact and_congr_right fun _ => and_iff_right shown

/-- While an event is processed, the observer adds the outcomes it has for the rules with an id. -/
theorem Occasion.hear {o : Occasion A N}
    (h : Engine.process π fuel o.event o.depth o.engine = .ok e')
    (rules : HashMap RuleId RuleStatus) (id : RuleId) : ((RestApiObserver.hearAll o.engine.now rules
      (e'.trace.drop o.engine.trace.length)).lookup id).getD .default =
        (o.outcomes id).foldl (fun s x => s.considered x.1 x.2 x.2.isTrue)
          ((rules.lookup id).getD .default) := by
  obtain ⟨-,xs,hx⟩ := (Engine.process_processed h).grows
  rw [hx,List.drop_left]
  by_cases shown : o.engine.Considers o.event o.depth
  · have hm := Engine.marks_of_considers shown h
    rw [List.append_assoc] at hm
    rw [RestApiObserver.hearAll_of_marks hx hm,List.foldl_append,RestApiObserver.hearMark_firings,
      List.foldl_map,o.outcomes_of_considers shown,List.foldl_map]
    exact HashMap.getD_foldl_upsert Rule.id .default (fun r s => s.considered o.engine.now
      (o.engine.verdict o.event r) (o.engine.verdict o.event r).isTrue) _ rules id
  · rw [o.outcomes_of_not_considers shown,List.foldl_nil]
    rcases Engine.marks_of_not_considers shown h with ⟨hm,-⟩ | ⟨key,r,-,-,-,-,hm⟩
    · rw [← List.append_nil o.engine.marks] at hm
      rw [RestApiObserver.hearAll_of_marks hx hm]
      rfl
    · rw [RestApiObserver.hearAll_of_marks hx hm]
      rfl

omit [Adapter A] [NorthboundAdapter N] in
/-- With distinct ids an event has at most one outcome for a rule. -/
theorem Occasion.outcomes_of_distinct {o : Occasion A N} (distinct : o.engine.RulesDistinct)
    {r : Rule} (hr : r ∈ o.engine.rules) :
    o.outcomes r.id = if o.Considers r then [o.outcome r] else [] := by
  obtain ⟨xs,ys,hrules⟩ := List.append_of_mem hr
  rw [Engine.RulesDistinct,hrules,List.map_append,List.map_cons,List.nodup_middle,List.nodup_cons,
    List.mem_append,not_or] at distinct
  obtain ⟨⟨hxs,hys⟩,-⟩ := distinct
  have hother {rs : List Rule} (hrs : r.id ∉ rs.map Rule.id) :
      (rs.filter fun r' => decide (r'.id = r.id ∧ o.Considers r')) = [] := by
    rw [List.filter_eq_nil_iff]
    intro r' hr' h
    exact hrs (List.mem_map.mpr ⟨r',hr',(of_decide_eq_true h).1⟩)
  rw [outcomes,hrules,List.filter_append,List.filter_cons,hother hxs,hother hys,List.nil_append]
  by_cases hc : o.Considers r <;> simp [hc]

end Outcomes

namespace Observed
variable [Adapter A] [NorthboundAdapter M] {π : HashOrder} {host : Host (RestApiAdapter ⊕ M)}
  {i : ℕ} {o o' o₀ : Observed A M}

/-- One step of the host, and what the observer makes of it. -/
def Step (π : HashOrder) (host : Host (RestApiAdapter ⊕ M)) (i : ℕ) (o o' : Observed A M) : Prop :=
  Domiform.Step π host o.config o'.config ∧ o' = o.after i o'.config

abbrev Run (π : HashOrder) (host : Host (RestApiAdapter ⊕ M)) (i : ℕ) :
    Observed A M → Observed A M → Prop := ReflTransGen (Step π host i)

theorem Run.observe (run : Run π host i o₀ o) {c : Config A (RestApiAdapter ⊕ M)}
    (step : Domiform.Step π host o.config c) : Run π host i o₀ (o.after i c) :=
  run.tail ⟨step,rfl⟩

/-- Every run of the engine is observed. -/
theorem of_run {c : Config A (RestApiAdapter ⊕ M)} (run : Domiform.Run π host o.config c) :
    ∃ o', Run π host i o o' ∧ o'.config = c := by
  induction run with
  | refl => exact ⟨o,.refl,rfl⟩
  | @tail _ c' _ step ih =>
    obtain ⟨o₁,run,rfl⟩ := ih
    exact ⟨o₁.after i c',run.observe step,rfl⟩

/-- The status of every rule id says what its outcomes were. -/
def Exact (o : Observed A M) : Prop := ∀ id, o.ruleStatus id = .summary (o.outcomes id)

omit [Adapter A] [NorthboundAdapter M] in
/-- A step that takes nothing off the queue tells the observer nothing. -/
theorem Exact.quiet (h : o.Exact) {c : Config A (RestApiAdapter ⊕ M)}
    (idle : o.config.engine.queue = []) {seen : List (Millis × Entry)}
    (ht : c.engine.trace = o.config.engine.trace ++ seen)
    (silent : ∀ x ∈ seen, x.2.ruleMark = none) : (o.after i c).Exact := by
  have hnext : o.config.engine.next = none := by rw [Engine.next,idle]
  have hs : (seen.filterMap fun x => x.2.ruleMark) = [] := List.filterMap_eq_nil_iff.mpr silent
  intro id
  rw [after,ht,List.drop_left,RestApiObserver.hearAll_eq,hs,hnext,Option.toList_none,
    List.append_nil]
  exact h id

theorem Step.exact (step : Step π host i o o') (stamped : o'.config.engine.Stamped i)
    (h : o.Exact) : o'.Exact := by
  obtain ⟨step,ho⟩ := step
  rw [ho]
  obtain ⟨c,rules,history⟩ := o
  generalize o'.config = c' at step stamped
  cases step with
  | start idle =>
    apply h.quiet idle (List.append_assoc _ [_] [_])
    simp [Entry.ruleMark]
  | synced idle | inject ev may idle | addNorthbound n may idle =>
    exact h.quiet idle (List.append_nil _).symm (by simp)
  | @advance e p dt idle =>
    apply h.quiet idle (Engine.tickAdapters_trace π _)
    simp [Entry.ruleMark]
  | @process e e' p ev depth rest fuel next hp =>
    intro id
    have hnow : e'.now = e.now := (Engine.process_processed hp).grows.1
    have hnext : e.next = some ⟨{ e with queue := rest },ev,depth⟩ := by rw [Engine.next,next]
    have heard := Occasion.hear (o := ⟨{ e with queue := rest },ev,depth⟩) hp rules id
    have hs := h id
    simp only [ruleStatus,outcomes] at hs
    rw [after,hnext,stamped.shared,hnow,outcomes,List.flatMap_append,RuleStatus.summary_append,← hs,
      Option.toList_some,List.flatMap_singleton]
    exact heard

/-- What holds in every run: the time is stamped, the statuses are exact, and the engines of the
history have the rules that were wired. -/
theorem Run.exact (registered : o₀.Registered i) (run : Run π host i o₀ o) :
    o.config.engine.Stamped i ∧ o.Exact ∧ o.config.engine.rules = o₀.config.engine.rules ∧
      ∀ x ∈ o.history, x.engine.rules = o₀.config.engine.rules := by
  induction run with
  | refl =>
    obtain ⟨inbound,hi⟩ := registered.slot
    refine ⟨⟨_,hi,_,rfl,registered.now.symm⟩,fun id => ?_,rfl,?_⟩
    · rw [ruleStatus,outcomes,registered.rules,registered.history]
      rfl
    · rw [registered.history]
      exact fun x hx => absurd hx List.not_mem_nil
  | @tail o o' run step ih =>
    obtain ⟨stamped,exact,rules,history⟩ := ih
    have hs := step.1.stamped stamped
    refine ⟨hs,step.exact hs exact,step.1.wiring.rules.trans rules,?_⟩
    intro x hx
    rw [step.2,after,List.mem_append] at hx
    rcases hx with hx | hx
    · exact history x hx
    · rw [Option.mem_toList,Engine.next] at hx
      split at hx
      · cases hx
      · cases hx
        exact rules

end Observed

section Exactness
variable [Adapter A] [NorthboundAdapter M] {π : HashOrder} {host : Host (RestApiAdapter ⊕ M)}
  {i : ℕ} {o₀ o : Observed A M}

/-- In every state of a run the status of a rule id has the time and the truth of the last event
that a rule with that id matched, the time of the last one that fired it and how many did; with
distinct ids these are the events that the rule itself matched. -/
theorem rule_status_is_exact (registered : o₀.Registered i) (run : Observed.Run π host i o₀ o) :
    (∀ id, o.ruleStatus id = .summary (o.outcomes id)) ∧
      (o₀.config.engine.RulesDistinct → ∀ r ∈ o₀.config.engine.rules, o.ruleStatus r.id =
        .summary ((o.history.filter fun x => decide (x.Considers r)).map
          fun x => x.outcome r)) := by
  obtain ⟨-,exact,-,history⟩ := run.exact registered
  refine ⟨exact,fun distinct r hr => ?_⟩
  have hx : ∀ x ∈ o.history, x.outcomes r.id = if x.Considers r then [x.outcome r] else [] := by
    intro x hx
    have hrules := history x hx
    refine Occasion.outcomes_of_distinct ?_ (by rwa [hrules])
    rw [Engine.RulesDistinct,hrules]
    exact distinct
  rw [exact r.id,Observed.outcomes,List.flatMap_congr hx]
  congr 1
  induction o.history with
  | nil => rfl
  | cons x xs ih =>
    rw [List.flatMap_cons,ih,List.filter_cons]
    by_cases hc : x.Considers r <;> simp [hc]

end Exactness

/-- A rule that only watches the lamp; the REST API looks on. -/
def watchedEngine : Engine VirtualDeviceAdapter (RestApiAdapter ⊕ MockNorthbound) :=
  (Engine.new.addNorthbound (.inl ⟨.default,[]⟩)).addRule
    ⟨⟨0⟩,"lamp on",.changed lamp .switch true,.always,[],none⟩

def watchedHost : Observed VirtualDeviceAdapter MockNorthbound := ⟨⟨watchedEngine,.wired⟩,∅,[]⟩

theorem watchedHost_registered : watchedHost.Registered 0 :=
  ⟨(Engine.Fresh.new.addNorthbound _).addRule _,rfl,⟨_,rfl⟩,rfl,rfl⟩

/-- The lamp is switched on five milliseconds after the start. -/
theorem lamp_on_is_reported : ∃ o, Observed.Run .identity .any 0 watchedHost o ∧
    o.config.engine.queue = [] ∧ o.ruleStatus ⟨0⟩ = ⟨some 5,some .true,some 5,1⟩ ∧
    ∀ r ∈ watchedEngine.rules, o.ruleStatus r.id =
      .summary ((o.history.filter fun x => decide (x.Considers r)).map fun x => x.outcome r) := by
  have run : Observed.Run .identity .any 0 watchedHost watchedHost := .refl
  replace run := run.observe (.start rfl (by decide))
  replace run := run.observe (.synced rfl)
  replace run := run.observe (.advance 5 rfl (by decide))
  replace run := run.observe (.inject (.stateReported lamp (.switch true)) trivial rfl (by decide))
  replace run := run.observe (.process 4 rfl rfl)
  exact ⟨_,run,rfl,by decide,
    (rule_status_is_exact watchedHost_registered run).2 (List.nodup_singleton _)⟩

end Domiform
