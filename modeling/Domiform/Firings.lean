import Domiform.Engine.Elapsing
import Domiform.Engine.Marks
import Domiform.Replay

/-! Fire notices. A rule is announced as fired when its condition is met, and its commands are
dispatched then or, under `for:`, when the wait ends, if it ever does. -/
namespace Domiform
open Library Relation

namespace RuleMark

def notifies (id : RuleId) : RuleMark → Bool
  | considered rule _ fired => rule == id && fired
  | firing _ => false

def dispatches (id : RuleId) : RuleMark → Bool
  | considered _ _ _ => false
  | firing rule => rule == id

end RuleMark

namespace Engine
variable {A N : Type}

/-- How often the observers heard that the rule fired. -/
def timesNotified (e : Engine A N) (id : RuleId) : ℕ := e.marks.countP (RuleMark.notifies id)

/-- How often the commands of the rule were dispatched because it fired. -/
def timesDispatched (e : Engine A N) (id : RuleId) : ℕ := e.marks.countP (RuleMark.dispatches id)

/-- Whether the rule waits for its `for:` timer. -/
def waits (e : Engine A N) (id : RuleId) : ℕ := if (e.pendingFor.lookup id).isSome then 1 else 0

variable {e e' : Engine A N} {id : RuleId}

theorem countP_considered (e : Engine A N) (ev : Event) (id : RuleId) :
    ((e.matched ev).map fun r => RuleMark.considered r.id (e.verdict ev r)
      (e.verdict ev r).isTrue).countP (RuleMark.notifies id) =
        (e.met ev).countP fun r => r.id == id := by
  rw [met,List.countP_map,List.countP_filter]
  rfl

theorem countP_firing (rules : List Rule) (id : RuleId) :
    (rules.map fun r => RuleMark.firing r.id).countP (RuleMark.dispatches id) =
      rules.countP fun r => r.id == id := by
  rw [List.countP_map]
  rfl

theorem countP_eq_zero_of_shape {α : Type} {f : α → RuleMark} {p : RuleMark → Bool} {xs : List α}
    (h : ∀ x, p (f x) = false) : (xs.map f).countP p = 0 := by
  rw [List.countP_map,List.countP_eq_zero]
  intro x _
  simp [h]

/-- Every rule that is met is announced; of these, the ones that need not wait are dispatched. -/
theorem counts_of_marks (id : RuleId) {ev : Event} (h : e'.marks = e.marks ++
      ((e.matched ev).map fun r => .considered r.id (e.verdict ev r) (e.verdict ev r).isTrue) ++
        ((e.met ev).filter fun r => r.forDuration.isNone).map fun r => .firing r.id) :
    e'.timesNotified id = e.timesNotified id + (e.met ev).countP (fun r => r.id == id) ∧
      e'.timesDispatched id = e.timesDispatched id +
        ((e.met ev).filter fun r => r.forDuration.isNone).countP fun r => r.id == id := by
  rw [timesNotified,timesDispatched,h]
  simp only [List.countP_append,countP_considered,countP_firing]
  rw [countP_eq_zero_of_shape (p := RuleMark.notifies id) fun _ => rfl,
    countP_eq_zero_of_shape (p := RuleMark.dispatches id) fun _ => rfl]
  exact ⟨rfl,rfl⟩

section Waits
variable [Adapter A]

omit [Adapter A] in
/-- A wait begins for a rule that has a `for:`. -/
theorem waits_of_armAll {fired : List Rule} (hw : ((armAll fired e).pendingFor.lookup id).isSome) :
    (e.pendingFor.lookup id).isSome ∨ ∃ r ∈ fired, r.id = id ∧ r.forDuration.isSome := by
  induction fired generalizing e with
  | nil => exact .inl hw
  | cons r fired ih =>
    rcases ih hw with hw | ⟨r',hr,hid,hd⟩
    · dsimp only at hw
      cases hd : r.forDuration with
      | none =>
        rw [hd] at hw
        exact .inl hw
      | some d =>
        rw [hd] at hw
        dsimp only at hw
        rw [armForTimer_pendingFor] at hw
        split_ifs at hw with hid
        · exact .inr ⟨r,List.mem_cons_self,hid.symm,by rw [hd]; rfl⟩
        · exact .inl hw
    · exact .inr ⟨r',List.mem_cons_of_mem _ hr,hid,hd⟩

theorem waits_of_runFired {fuel depth : ℕ} {fired : List Rule}
    (h : runFired fuel fired depth e = .ok e') (hw : (e'.pendingFor.lookup id).isSome) :
    (e.pendingFor.lookup id).isSome ∨ ∃ r ∈ fired, r.id = id ∧ r.forDuration.isSome := by
  have hp : e'.pendingFor = (armAll fired e).pendingFor :=
    foldlM_ok_induct (I := fun b => b.pendingFor = (armAll fired e).pendingFor)
      (fun r _ b b' hb hf => (fire_pendingFor hf).trans hb) rfl h
  rw [hp] at hw
  exact waits_of_armAll hw

variable [NorthboundAdapter N]

theorem waits_of_considers {π : HashOrder} {fuel depth : ℕ} {ev : Event}
    (shown : e.Considers ev depth) (h : process π fuel ev depth e = .ok e')
    (hw : (e'.pendingFor.lookup id).isSome) :
    (e.pendingFor.lookup id).isSome ∨ ∃ r ∈ e.met ev, r.id = id ∧ r.forDuration.isSome := by
  obtain ⟨e₂,h₂,hfired,h⟩ := react_cases (react_of_considers shown h)
  have hc (b : Engine A N) (prior : Option CapabilityState) :
      (b.considerRules ev prior).1.pendingFor = b.pendingFor := by
    rw [considerRules_fst]
  rcases waits_of_runFired h hw with hw | ⟨r,hr,hid,hd⟩
  · rw [hc] at hw
    have hf : ((e.received ev depth).foldState ev).pendingFor = e.pendingFor := by
      cases ev <;> rfl
    rcases h₂ with rfl | rfl
    · rw [hf] at hw
      exact .inl hw
    · left
      rw [← hf]
      revert hw
      -- a reverted wait ends, and no other begins
      unfold cancelRevertedForTimers
      refine List.foldlRecOn _ _ (motive := fun b : Engine A N =>
        (b.pendingFor.lookup id).isSome →
          (((e.received ev depth).foldState ev).pendingFor.lookup id).isSome) (fun h => h) ?_
      intro b hb rule _ hw
      rw [cancelForTimer_pendingFor] at hw
      split_ifs at hw
      · cases hw
      · exact hb hw
  · refine .inr ⟨r,mem_met.mpr ⟨?_,?_⟩,hid,hd⟩
    · obtain ⟨hr,hm,-⟩ := (hfired r).mp hr
      exact mem_matched.mpr ⟨hr,hm⟩
    · exact ((hfired r).mp hr).2.2

end Waits

/-- Every dispatch was announced, and so was every wait. -/
def Announced (e : Engine A N) : Prop :=
  ∀ id, e.timesDispatched id + e.waits id ≤ e.timesNotified id

/-- Announcements and dispatches match, and no rule waits. -/
def Truthful (e : Engine A N) : Prop := ∀ id, e.timesNotified id = e.timesDispatched id

theorem waits_le_one (e : Engine A N) (id : RuleId) : e.waits id ≤ 1 := by
  rw [waits]
  split_ifs <;> omega

theorem waits_le_of_imp (h : (e'.pendingFor.lookup id).isSome → (e.pendingFor.lookup id).isSome) :
    e'.waits id ≤ e.waits id := by
  rw [waits,waits]
  split_ifs with h₁ h₂
  · omega
  · exact absurd (h h₁) h₂
  · omega
  · omega

theorem waits_erase (h : e'.pendingFor = e.pendingFor.erase rule) :
    e'.waits id = if id = rule then 0 else e.waits id := by
  rw [waits,h,HashMap.lookup_erase]
  split_ifs <;> simp_all [waits]

theorem counts_of_eq (id : RuleId) (h : e'.marks = e.marks) :
    e'.timesNotified id = e.timesNotified id ∧ e'.timesDispatched id = e.timesDispatched id := by
  rw [timesNotified,timesDispatched,h]
  exact ⟨rfl,rfl⟩

theorem Announced.of_eq (h : e.Announced) (hm : e'.marks = e.marks)
    (hp : e'.pendingFor = e.pendingFor) : e'.Announced := by
  intro id
  rw [timesNotified,timesDispatched,waits,hm,hp]
  exact h id

theorem Truthful.of_marks (h : e.Truthful) (hm : e'.marks = e.marks) : e'.Truthful := by
  intro id
  rw [timesNotified,timesDispatched,hm]
  exact h id

theorem counts_of_firing (id : RuleId) {rule : RuleId} (h : e'.marks = e.marks ++ [.firing rule]) :
    e'.timesNotified id = e.timesNotified id ∧
      e'.timesDispatched id = e.timesDispatched id + if id = rule then 1 else 0 := by
  rw [timesNotified,timesDispatched,h]
  rw [List.countP_append,List.countP_append,List.countP_singleton,List.countP_singleton]
  refine ⟨rfl,?_⟩
  by_cases he : id = rule
  · simp [RuleMark.dispatches,he,timesDispatched]
  · simp [RuleMark.dispatches,he,Ne.symm he,timesDispatched]

/-- The rules with an id that fire at once are some of those that are met. -/
theorem countP_immediate (e : Engine A N) (ev : Event) (id : RuleId) :
    ((e.met ev).filter fun r => r.forDuration.isNone).countP (fun r => r.id == id) ≤
      (e.met ev).countP fun r => r.id == id :=
  List.filter_sublist.countP_le

theorem countP_immediate_lt {ev : Event} {r : Rule} (hr : r ∈ e.met ev)
    (waiting : r.forDuration.isSome) :
    ((e.met ev).filter fun r => r.forDuration.isNone).countP (fun r' => r'.id == r.id) <
      (e.met ev).countP fun r' => r'.id == r.id := by
  have hnone : r.forDuration.isNone = false := by
    rw [← Option.not_isSome,waiting]
    rfl
  have hpos : 0 < ((e.met ev).filter fun r => !r.forDuration.isNone).countP
      fun r' => r'.id == r.id := by
    rw [List.countP_pos_iff]
    exact ⟨r,List.mem_filter.mpr ⟨hr,by rw [hnone]; rfl⟩,by simp⟩
  rw [List.countP_eq_countP_filter_add (e.met ev) (fun r' => r'.id == r.id)
    fun r => r.forDuration.isNone]
  exact Nat.lt_add_of_pos_right hpos

variable [Adapter A] [NorthboundAdapter N]

/-- Processing an event keeps the announcements ahead of the dispatches. -/
theorem Announced.process {π : HashOrder} {fuel depth : ℕ} {ev : Event} (h : e.Announced)
    (hp : Engine.process π fuel ev depth e = .ok e') : e'.Announced := by
  intro id
  have hid := h id
  by_cases shown : e.Considers ev depth
  · obtain ⟨hn,hd⟩ := counts_of_marks id (marks_of_considers shown hp)
    rw [hn,hd]
    have hle := e.countP_immediate ev id
    by_cases begins : ∃ r ∈ e.met ev, r.id = id ∧ r.forDuration.isSome
    · obtain ⟨r,hr,rfl,hlasts⟩ := begins
      have hlt := countP_immediate_lt hr hlasts
      have hw := e'.waits_le_one r.id
      omega
    · have hw : e'.waits id ≤ e.waits id :=
        waits_le_of_imp fun hw => (waits_of_considers shown hp hw).resolve_right begins
      omega
  · rcases marks_of_not_considers shown hp with ⟨hm,hw⟩ | ⟨key,r,-,hr,waiting,hw,hm⟩
    · obtain ⟨hn,hd⟩ := counts_of_eq id hm
      have hw : e'.waits id ≤ e.waits id := by
        rcases hw with hw | ⟨rule,hw⟩
        · exact waits_le_of_imp (by rw [hw]; exact fun h => h)
        · rw [waits_erase hw]
          split_ifs <;> omega
      omega
    · obtain ⟨hn,hd⟩ := counts_of_firing id hm
      rw [hn,hd,waits_erase hw]
      by_cases he : id = r.id
      · have hone : e.waits id = 1 := by
          rw [he,waits,waiting]
          rfl
        rw [if_pos he,if_pos he]
        omega
      · rw [if_neg he,if_neg he]
        omega

end Engine

variable {A N : Type} [Adapter A] [NorthboundAdapter N] {π : HashOrder} {host : Host N}
  {c c' : Config A N}

/-- No rule that the next event fires has a `for:` to wait for. -/
def Config.Prompt (c : Config A N) : Prop :=
  ∀ ev depth rest, c.engine.queue = (ev,depth) :: rest → c.engine.Considers ev depth →
    ∀ r ∈ c.engine.met ev, r.forDuration = none

theorem Step.announced (step : Step π host c c') (h : c.engine.Announced) :
    c'.engine.Announced := by
  cases step with
  | @process e e' p ev depth rest fuel next hp =>
    have h' : ({ e with queue := rest } : Engine A N).Announced := h
    exact h'.process hp
  | start idle ready => exact h.of_eq (Engine.marks_started π _) rfl
  | advance dt idle ready => exact h.of_eq (Engine.marks_advanced π _ dt) rfl
  | _ => exact h

omit [Adapter A] [NorthboundAdapter N] in
theorem Engine.Fresh.marks {e : Engine A N} (h : e.Fresh) : e.marks = [] := by
  rw [Engine.marks,h.trace]
  rfl

omit [Adapter A] [NorthboundAdapter N] in
theorem Engine.Fresh.announced {e : Engine A N} (h : e.Fresh) : e.Announced := by
  have hp : e.pendingFor = ∅ := congrArg Timers.pendingFor h.timers
  intro id
  simp [Engine.timesDispatched,Engine.timesNotified,Engine.waits,h.marks,hp]

/-- Where no rule waits, a prompt step announces what it dispatches. -/
theorem Step.truthful (prompt : c.Prompt) (step : Step π host c c') (h : c.engine.Truthful)
    (idle : ∀ id, c.engine.pendingFor.lookup id = none) :
    c'.engine.Truthful ∧ ∀ id, c'.engine.pendingFor.lookup id = none := by
  cases step with
  | @process e e' p ev depth rest fuel next hp =>
    by_cases shown : e.Considers ev depth
    · have shown' : ({ e with queue := rest } : Engine A N).Considers ev depth := shown
      have hall := prompt ev depth rest next shown
      constructor
      · intro id
        obtain ⟨hn,hd⟩ := Engine.counts_of_marks id (Engine.marks_of_considers shown' hp)
        have hf : ({ e with queue := rest } : Engine A N).met ev = e.met ev := rfl
        have hfilter : (e.met ev).filter (fun r => r.forDuration.isNone) = e.met ev :=
          List.filter_eq_self.mpr fun r hr => by rw [hall r hr]; rfl
        rw [hn,hd,hf,hfilter]
        exact congrArg (· + _) (h id)
      · intro id
        by_contra hw
        rw [← ne_eq,← Option.isSome_iff_ne_none] at hw
        rcases Engine.waits_of_considers shown' hp hw with hw | ⟨r,hr,-,hd⟩
        · have hi := idle id
          rw [show e.pendingFor.lookup id = none from hi] at hw
          cases hw
        · rw [hall r hr] at hd
          cases hd
    · have hidden : ¬({ e with queue := rest } : Engine A N).Considers ev depth := shown
      rcases Engine.marks_of_not_considers hidden hp with ⟨hm,hw⟩ | ⟨key,r,-,-,waiting,-⟩
      · refine ⟨fun id => ?_,fun id => ?_⟩
        · obtain ⟨hn,hd⟩ := Engine.counts_of_eq id hm
          rw [hn,hd]
          exact h id
        · rcases hw with hw | ⟨rule,hw⟩
          · rw [hw]
            exact idle id
          · rw [hw,HashMap.lookup_erase]
            split_ifs
            · rfl
            · exact idle id
      · have hi := idle r.id
        exact absurd (waiting.symm.trans hi) (by rintro ⟨⟩)
  | start => exact ⟨h.of_marks (Engine.marks_started π _),idle⟩
  | advance dt => exact ⟨h.of_marks (Engine.marks_advanced π _ dt),idle⟩
  | _ => exact ⟨h,idle⟩

/-- A step that is not prompt announces more than it dispatches. -/
theorem Step.not_truthful (h : c.engine.Announced) (waits : ¬c.Prompt) (step : Step π host c c') :
    ∃ r ∈ c.engine.rules, c'.engine.timesDispatched r.id < c'.engine.timesNotified r.id := by
  simp only [Config.Prompt,not_forall] at waits
  obtain ⟨ev,depth,rest,next,shown,r,hr,hlasts⟩ := waits
  obtain ⟨fuel,hp⟩ := step.of_next next
  have shown' : ({ c.engine with queue := rest } : Engine A N).Considers ev depth := shown
  obtain ⟨hn,hd⟩ := Engine.counts_of_marks r.id (Engine.marks_of_considers shown' hp)
  have hlt := Engine.countP_immediate_lt hr (Option.isSome_iff_ne_none.mpr hlasts)
  have hle := h r.id
  refine ⟨r,(Engine.mem_matched.mp (Engine.mem_met.mp hr).1).1,?_⟩
  rw [hn,hd]
  change c.engine.timesDispatched r.id + c.engine.waits r.id ≤ c.engine.timesNotified r.id at hle
  change c.engine.timesDispatched r.id + _ < c.engine.timesNotified r.id + _
  exact Nat.add_lt_add_of_le_of_lt (by omega) hlt

/-- A run whose every step is prompt. -/
abbrev PromptRun (π : HashOrder) (host : Host N) : Config A N → Config A N → Prop :=
  ReflTransGen fun c c' => Step π host c c' ∧ c.Prompt

/-- In a run that is prompt throughout, every rule is announced as fired as often as its commands
were dispatched for it; and the first step that is not announces a rule more often than that. -/
theorem fire_notices_match_dispatches {e₀ : Engine A N} (fresh : e₀.Fresh) {p : Phase} :
    (∀ c, PromptRun π host ⟨e₀,p⟩ c → c.engine.Truthful) ∧
      ∀ c c', Run π host ⟨e₀,p⟩ c → Step π host c c' → ¬c.Prompt →
        ∃ r ∈ c.engine.rules, c'.engine.timesDispatched r.id < c'.engine.timesNotified r.id := by
  constructor
  · intro c run
    have inv : c.engine.Truthful ∧ ∀ id, c.engine.pendingFor.lookup id = none := by
      induction run with
      | refl =>
        have hp : e₀.pendingFor = ∅ := congrArg Timers.pendingFor fresh.timers
        refine ⟨fun id => ?_,fun id => by rw [hp]; rfl⟩
        rw [Engine.timesNotified,Engine.timesDispatched,fresh.marks]
        rfl
      | tail _ step ih => exact step.1.truthful step.2 ih.1 ih.2
    exact inv.1
  · intro c c' run step waits
    have inv : c.engine.Announced := by
      clear step waits
      induction run with
      | refl => exact fresh.announced
      | tail _ step ih => exact step.announced ih
    exact step.not_truthful inv waits

/-- Without `for:` every run is prompt. -/
theorem promptRun_of_rules {e₀ : Engine A N} {p : Phase}
    (immediate : ∀ r ∈ e₀.rules, r.forDuration = none) (run : Run π host ⟨e₀,p⟩ c) :
    PromptRun π host ⟨e₀,p⟩ c := by
  induction run with
  | refl => exact .refl
  | tail run step ih =>
    refine ih.tail ⟨step,fun ev depth rest _ _ r hr => immediate r ?_⟩
    rw [← (Run.wiring run).rules]
    exact (Engine.mem_matched.mp (Engine.mem_met.mp hr).1).1

/-- When the lamp has been on, for as long as `wait` says, it is dimmed. -/
def dimmingEngine (wait : Option Millis) : Engine VirtualDeviceAdapter MockNorthbound :=
  ((Engine.new.addAdapter {}).1.bindDevice lamp 1).addRule
    ⟨⟨0⟩,"dim",.changed lamp .switch true,.always,[.setBrightness lamp 40 none],wait⟩

theorem dimmingEngine_fresh (wait : Option Millis) : (dimmingEngine wait).Fresh :=
  ((Engine.Fresh.new.addAdapter _).bindDevice _ _).addRule _

theorem prompt_dimming_is_truthful : ∃ c, PromptRun .identity .any ⟨dimmingEngine none,.wired⟩ c ∧
    c.engine.queue = [] ∧ c.engine.timesDispatched ⟨0⟩ = 1 ∧ c.engine.Truthful := by
  obtain ⟨e,h,hd⟩ : ∃ e, (dimmingEngine none).inject .identity 4
      (.stateReported lamp (.switch true)) = .ok e ∧ e.timesDispatched ⟨0⟩ = 1 :=
    ⟨_,rfl,by decide⟩
  obtain ⟨run,idle⟩ := inject_run .any .wired trivial rfl (by decide) h
  have prompt : PromptRun .identity .any ⟨dimmingEngine none,.wired⟩ ⟨e,.wired⟩ := by
    refine promptRun_of_rules (fun r hr => ?_) run
    rw [List.mem_singleton.mp hr]
  exact ⟨_,prompt,idle,hd,(fire_notices_match_dispatches (dimmingEngine_fresh none)).1 _ prompt⟩

/-- The lamp is off again before its second is over: the rule was announced as fired, and its
commands are never dispatched. -/
theorem cancelled_wait_is_announced : ∃ c, Run .identity .any ⟨dimmingEngine (some 1000),.wired⟩ c ∧
    c.engine.queue = [] ∧ (c.engine.pendingFor.lookup ⟨0⟩).isNone ∧
    c.engine.timesNotified ⟨0⟩ = 1 ∧ c.engine.timesDispatched ⟨0⟩ = 0 := by
  obtain ⟨e₁,h₁,e₂,h₂,e₃,h₃,hw,hn,hd⟩ : ∃ e₁, (dimmingEngine (some 1000)).inject .identity 3
      (.stateReported lamp (.switch true)) = .ok e₁ ∧
      ∃ e₂, e₁.inject .identity 3 (.stateReported lamp (.switch false)) = .ok e₂ ∧
      ∃ e₃, e₂.advance .identity 3 2000 = .ok e₃ ∧ (e₃.pendingFor.lookup ⟨0⟩).isNone ∧
        e₃.timesNotified ⟨0⟩ = 1 ∧ e₃.timesDispatched ⟨0⟩ = 0 :=
    ⟨_,rfl,_,rfl,_,rfl,by decide,by decide,by decide⟩
  obtain ⟨run₁,q₁⟩ := inject_run .any .wired trivial rfl (by decide) h₁
  obtain ⟨run₂,q₂⟩ := inject_run .any .wired trivial q₁ (by decide) h₂
  obtain ⟨run₃,q₃⟩ := advance_run .any .wired q₂ (by decide) h₃
  exact ⟨_,(run₁.trans run₂).trans run₃,q₃,hw,hn,hd⟩

end Domiform
