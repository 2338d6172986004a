import Domiform.Compiled
import Domiform.Firings
import Domiform.Sustained

/-! Held timers. The engine's table of waiting rules and the scheduler's timers under `__for:` are two
maps in two objects. Within a drain a key may be in the first alone, while its expiry is still on the
queue; between two calls of the host they hold the same keys. -/
namespace Domiform
open Library Relation

namespace Engine
variable {A N : Type} {e e' : Engine A N} {rule : RuleId}

/-- What runs under a reserved key is what some rule waits for, and only a rule that has a `for:`
waits. -/
structure Backed (e : Engine A N) : Prop where
  claimed : ∀ key t, key.startsWith forKeyPrefix = true → e.dueAt key = some t →
    ∃ rule, e.pendingFor.lookup rule = some ⟨key⟩
  known : ∀ rule p, e.pendingFor.lookup rule = some p →
    ∃ r ∈ e.rules, r.id = rule ∧ r.forDuration.isSome

namespace Backed

/-- Reserved keys may leave the scheduler. -/
theorem of_dueAt (h : e.Backed) (hp : e'.pendingFor = e.pendingFor) (hr : e'.rules = e.rules)
    (hd : ∀ key, key.startsWith forKeyPrefix = true →
      e'.dueAt key = e.dueAt key ∨ e'.dueAt key = none) : e'.Backed := by
  refine ⟨fun key t own ht => ?_,by rw [hp,hr]; exact h.known⟩
  rw [hp]
  rcases hd key own with hk | hk
  · exact h.claimed key t own (hk.symm.trans ht)
  · cases hk.symm.trans ht

theorem of_eq (h : e.Backed) (hp : e'.pendingFor = e.pendingFor) (hr : e'.rules = e.rules)
    (ha : e'.adapters = e.adapters) : e'.Backed := by
  refine h.of_dueAt hp hr fun key _ => .inl ?_
  unfold Engine.dueAt
  rw [ha]

/-- A rule stops waiting for a key that no longer runs. -/
theorem erasePendingFor (h : e.Backed) (rule : RuleId)
    (spent : ∀ key, e.pendingFor.lookup rule = some ⟨key⟩ → e.dueAt key = none) :
    ({ e with pendingFor := e.pendingFor.erase rule } : Engine A N).Backed := by
  refine ⟨fun key t own ht => ?_,fun r p hp => ?_⟩
  · have hd : e.dueAt key = some t := ht
    obtain ⟨r,hr⟩ := h.claimed key t own hd
    refine ⟨r,(HashMap.lookup_erase _ _ _).trans ?_⟩
    rw [if_neg,hr]
    rintro rfl
    cases (spent key hr).symm.trans hd
  · have hl : (e.pendingFor.erase rule).lookup r = some p := hp
    rw [HashMap.lookup_erase] at hl
    split_ifs at hl
    exact h.known r p hl

theorem cancelForTimer (h : e.Backed) (rule : RuleId) : (e.cancelForTimer rule).Backed := by
  have hrules : (e.cancelForTimer rule).rules = e.rules := by
    unfold Engine.cancelForTimer
    split <;> rfl
  refine ⟨fun key t own ht => ?_,fun r p hp => ?_⟩
  · rw [cancelForTimer_dueAt] at ht
    split_ifs at ht with hk
    obtain ⟨r,hr⟩ := h.claimed key t own ht
    refine ⟨r,?_⟩
    rw [cancelForTimer_pendingFor,if_neg,hr]
    rintro rfl
    exact hk hr
  · rw [cancelForTimer_pendingFor] at hp
    split_ifs at hp
    rw [hrules]
    exact h.known r p hp

theorem armForTimer (h : e.Backed) {r : Rule} (hr : r ∈ e.rules) (hd : r.forDuration.isSome)
    (after : Millis) : (e.armForTimer r.id after).Backed := by
  have hrules : (e.armForTimer r.id after).rules = e.rules := by
    unfold Engine.armForTimer
    cases e.pendingFor.lookup r.id <;> rfl
  refine ⟨fun key t own ht => ?_,fun id p hp => ?_⟩
  · rw [armForTimer_dueAt] at ht
    split_ifs at ht with hn hk
    · refine ⟨r.id,?_⟩
      rw [armForTimer_pendingFor,if_pos rfl,hn]
    · obtain ⟨id,hid⟩ := h.claimed key t own ht
      refine ⟨id,?_⟩
      rw [armForTimer_pendingFor,if_neg,hid]
      rintro rfl
      exact hk hid
  · rw [armForTimer_pendingFor] at hp
    rw [hrules]
    split_ifs at hp with hid
    · exact ⟨r,hr,hid.symm,hd⟩
    · exact h.known id p hp

/-- A retry is scheduled under a key of the other namespace. -/
theorem retried (h : e.Backed) (hr : Retried e e') (hp : e'.pendingFor = e.pendingFor)
    (hrules : e'.rules = e.rules) : e'.Backed := by
  refine h.of_dueAt hp hrules fun key own => .inl (hr.dueAt ?_)
  rintro rfl
  cases (retryKey_startsWith_for _).symm.trans own

theorem scheduleCommand (h : e.Backed) {cmd : Command} (apart : cmd.Apart) :
    (e.scheduleCommand cmd).Backed := by
  refine h.of_dueAt rfl rfl fun key own => ?_
  cases cmd with
  | scheduleTimer k after =>
    refine .inl ((SchedulerAdapter.lookup_scheduleTimer _ k key after _).trans (if_neg ?_))
    rintro rfl
    cases apart.1.symm.trans own
  | cancelTimer k =>
    have hd := SchedulerAdapter.lookup_cancelTimer e.adapters.scheduler k key e.now
    split_ifs at hd
    · exact .inr hd
    · exact .inl hd
  | _ => exact .inl rfl

section Dispatch
variable [Adapter A] {depth fuel : ℕ}

theorem dispatchDevice (h : e.Backed) {cmd : Command} (target : cmd.targetDevice.isSome)
    {attempt : ℕ} {origin : Option ℕ}
    (hd : Engine.dispatchDevice cmd attempt origin depth e = .ok e') : e'.Backed := by
  have hf := dispatchDevice_dispatched hd
  exact h.retried (dispatchDevice_retried target hd) hf.pendingFor hf.rules

theorem act (h : e.Backed) (ha : Act Command.Apart depth e e') : e'.Backed := by
  cases ha with
  | dispatched | expanded => exact h.of_eq rfl rfl rfl
  | timer cmd _ apart => exact h.scheduleCommand apart
  | device cmd target _ hd => exact h.dispatchDevice target hd

theorem acts (h : e.Backed) (ha : ReflTransGen (Act Command.Apart depth) e e') : e'.Backed := by
  induction ha with
  | refl => exact h
  | tail _ ha ih => exact ih.act ha

theorem fire (h : e.Backed) {r : Rule} (hc : ∀ c ∈ r.commands, c.Apart)
    (hs : e.ScenesIn Command.Apart) (hf : Engine.fire fuel r depth e = .ok e') : e'.Backed := by
  have h₁ : (e.record (.firing r.id e.state)).Backed := h.of_eq rfl rfl rfl
  exact h₁.acts (dispatchAll_acts _ hc hs hf)

/-- The rules that wait are armed and the others fired, one by one. -/
theorem runFired [NorthboundAdapter N] (h : e.Backed) {fired : List Rule}
    (apart : e.CommandsIn Command.Apart)
    (mem : ∀ r ∈ fired, r ∈ e.rules) (hf : Engine.runFired fuel fired depth e = .ok e') :
    e'.Backed := by
  have inv : e'.Backed ∧ e'.rules = e.rules ∧ e'.ScenesIn Command.Apart := by
    refine runFired_induct (I := fun b : Engine A N => b.Backed ∧ b.rules = e.rules ∧
      b.ScenesIn Command.Apart) (fun r hm after hd b hb => ?_) (fun r hm _ b b' hb hf => ?_) hf
        ⟨h,rfl,apart.scenes⟩
    · obtain ⟨hback,hrules,hscenes⟩ := hb
      have hi : Internal (fun _ => True) depth b (b.armForTimer r.id after) :=
        .of_armForTimer b r.id after
      refine ⟨hback.armForTimer ?_ (by rw [hd]; rfl) after,hi.rules.trans hrules,?_⟩
      · rw [hrules]
        exact mem r hm
      · rw [ScenesIn,hi.scenes]
        exact hscenes
    · obtain ⟨hback,hrules,hscenes⟩ := hb
      have hi : Internal (fun _ => True) depth b b' := .of_fire trivial hf
      refine ⟨hback.fire (apart.rules r (mem r hm)) hscenes hf,hi.rules.trans hrules,?_⟩
      rw [ScenesIn,hi.scenes]
      exact hscenes
  exact inv.1

end Dispatch
end Backed

section Process
variable [Adapter A] [NorthboundAdapter N] {π : HashOrder} {fuel depth : ℕ} {ev : Event}

/-- Whatever the event, the table and the scheduler stay together; an expiry spends a key that the
scheduler has let go of. -/
theorem Processed.backed (h : e.Backed) (keyed : e.Keyed) (apart : e.CommandsIn Command.Apart)
    (spent : ∀ rule key, ev = .timerElapsed key → e.pendingFor.lookup rule = some ⟨key⟩ →
      e.dueAt key = none) (hp : Processed π fuel depth e ev e') : e'.Backed := by
  have start : (e.received ev depth).Backed := h.of_eq rfl rfl rfl
  cases hp with
  | dropped => exact h.of_eq rfl rfl rfl
  | retried key p e' le pending hd =>
    have keyed₁ : (e.received (.timerElapsed key) depth).Keyed := keyed.of_eq rfl rfl rfl rfl
    obtain ⟨cmd,target,-,hd⟩ :=
      retry_dispatched (e := e.received (.timerElapsed key) depth) keyed₁ pending hd
    have before : ({ e.received (.timerElapsed key) depth with
        retries := e.retries.erase key }.notify (.commandDispatched cmd 0)).Backed :=
      h.of_eq rfl rfl rfl
    exact before.dispatchDevice target hd
  | elapsed key e' le fresh own hf =>
    obtain rfl | ⟨rule,waiting,hf⟩ := fireElapsedFor_cases hf
    · exact start
    have erased := start.erasePendingFor rule fun k hk => by
      cases waiting.symm.trans hk
      exact spent rule key rfl waiting
    obtain rfl | ⟨r,-,found,-,hf⟩ := hf
    · exact erased
    · exact erased.fire (apart.rules r (List.mem_of_find?_eq_some found)) apart.scenes hf
  | changed device desired e' le hc =>
    simp only [requestChange] at hc
    have hfan (b : Engine A N) (hb : b.Backed) : (b.refan device desired.kind).Backed := by
      unfold refan
      split <;> exact hb.of_eq rfl rfl rfl
    split at hc
    · rename_i cmd hcmd
      obtain ⟨e₁,h₁,h₂⟩ := bind_ok_iff.mp hc
      cases h₂
      exact hfan _ (start.acts
        (dispatchAt_acts _ (.of_not_timer (isTimer_of_requested hcmd)) apart.scenes h₁))
    · cases hc
      exact hfan _ start
  | activated scene e' le hd =>
    exact start.acts (dispatchAt_acts _ (.of_not_timer rfl) apart.scenes hd)
  | reacted ev e' le ordinary report hr =>
    obtain ⟨e₂,h₂,hfired,hr⟩ := react_cases hr
    have folded : ((e.received ev depth).foldState ev).Backed := by
      cases ev <;> exact h.of_eq rfl rfl rfl
    have cancelled : e₂.Backed := by
      rcases h₂ with rfl | rfl
      · exact folded
      · exact List.foldlRecOn _ _ folded fun b hb rule _ => hb.cancelForTimer rule
    have hi : Internal (fun _ => True) depth ((e.received ev depth).foldState ev)
        (e₂.considerRules ev ((e.received ev depth).prior ev)).1 :=
      (Internal.of_reverted h₂).trans (.of_considerRules e₂ ev _)
    have hw := wiring_received e ev depth
    have considered : (e₂.considerRules ev ((e.received ev depth).prior ev)).1.Backed := by
      rw [considerRules_fst]
      exact cancelled.of_eq rfl rfl rfl
    refine considered.runFired ⟨?_,?_⟩ (fun r hm => ?_) hr
    · rw [RulesIn,hi.rules,hw.2]
      exact apart.rules
    · rw [ScenesIn,hi.scenes,hw.1]
      exact apart.scenes
    · rw [hi.rules,hw.2]
      exact ((hfired r).mp hm).1

end Process

/-- The rules an event fires, and the engine in which those of them that wait are armed. -/
def arming [NorthboundAdapter N] (π : HashOrder) (ev : Event) (e : Engine A N) :
    Engine A N × List Rule :=
  let folded := e.foldState ev
  let kept :=
    match ev with
    | .stateReported _ _ => folded.cancelRevertedForTimers π
    | _ => folded
  kept.considerRules ev (e.prior ev)

/-- Whenever an event arms a rule's timer, the rule has none yet. -/
def ArmsAfresh [NorthboundAdapter N] (π : HashOrder) (ev : Event) (e : Engine A N) : Prop :=
  ∀ pre r post, (e.arming π ev).2 = pre ++ r :: post → r.forDuration.isSome →
    (armAll pre (e.arming π ev).1).pendingFor.lookup r.id = none

/-- The rule that waits for the key is there, and what it waits out still lasts. -/
def Reverifies (key : TimerKey) (e : Engine A N) : Prop :=
  ∀ rule, e.pendingFor.lookup rule = some ⟨key⟩ →
    ∃ r, e.rules.find? (fun r => r.id == rule) = some r ∧ r.trigger.predicateHolds e.state = true

/-- The waiting rules and the timers under `__for:` are each other's. -/
structure MirrorsTimers (e : Engine A N) : Prop where
  distinct : ∀ rule rule' p, e.pendingFor.lookup rule = some p →
    e.pendingFor.lookup rule' = some p → rule = rule'
  keys : ∀ key, (∃ rule, e.pendingFor.lookup rule = some ⟨key⟩) ↔
    key.startsWith forKeyPrefix = true ∧ (e.dueAt key).isSome
  lasting : ∀ rule p, e.pendingFor.lookup rule = some p → ∃ r ∈ e.rules, r.id = rule ∧
    r.trigger.watched.isSome ∧ r.forDuration.isSome ∧ r.trigger.predicateHolds e.state = true

section Arming
variable [NorthboundAdapter N] {π : HashOrder} {ev : Event}

/-- Reacting to an event is arming and firing what `arming` says. -/
theorem react_arming [Adapter A] (π : HashOrder) (fuel : ℕ) (ev : Event) (depth : ℕ) (e : Engine A N) :
    react π fuel ev depth e = runFired fuel (e.arming π ev).2 depth (e.arming π ev).1 := by
  cases ev <;> rfl

/-- Up to the arming, timers are only cancelled. -/
theorem arming_pendingFor (h : e.pendingFor.lookup rule = none) :
    (e.arming π ev).1.pendingFor.lookup rule = none := by
  unfold arming
  rw [considerRules_fst]
  cases ev with
  | stateReported device v =>
    have hl : ((e.foldState (.stateReported device v)).cancelRevertedForTimers π).pendingFor.lookup
        rule = none := by
      unfold cancelRevertedForTimers
      rw [foldl_cancelForTimer_pendingFor]
      split_ifs
      · rfl
      · exact h
    exact hl
  | _ => exact h

variable [Adapter A]

/-- The rules an event fires are rules of the engine, each at most once. -/
theorem arming_sublist : (e.arming π ev).2.Sublist e.rules := by
  have fires (b : Engine A N) (hb : b.rules = e.rules) :
      (b.considerRules ev (e.prior ev)).2.Sublist e.rules := by
    rw [← hb]
    exact List.filter_sublist.trans List.filter_sublist
  unfold arming
  cases ev with
  | stateReported device v =>
    have hi : Internal (fun _ => True) 0 (e.foldState (.stateReported device v))
        ((e.foldState (.stateReported device v)).cancelRevertedForTimers π) :=
      .of_cancelRevertedForTimers π _
    exact fires _ hi.rules
  | _ => exact fires _ rfl

omit [Adapter A] in
/-- A fired rule is one whose trigger matches. -/
theorem matches_of_mem_arming {r : Rule} (hr : r ∈ (e.arming π ev).2) :
    r.trigger.matchesEvent ev (e.prior ev) = true := by
  unfold arming at hr
  cases ev <;> exact (List.mem_filter.mp (List.mem_filter.mp hr).1).2

/-- A rule that waits is fired by no further edge, for its predicate holds already. -/
theorem armsAfresh (distinct : e.RulesDistinct)
    (edges : ∀ r ∈ e.rules, r.forDuration.isSome → r.trigger.watched.isSome)
    (lasting : ∀ r ∈ e.rules, (e.pendingFor.lookup r.id).isSome →
      r.trigger.predicateHolds e.state = true) : e.ArmsAfresh π ev := by
  intro pre r post hf hd
  have hsub : (pre ++ r :: post).Sublist e.rules := hf ▸ arming_sublist
  have hm : r ∈ pre ++ r :: post := by simp
  have hr : r ∈ e.rules := hsub.subset hm
  have hmatch : r.trigger.matchesEvent ev (e.prior ev) = true := by
    rw [← hf] at hm
    exact matches_of_mem_arming hm
  -- it does not wait when the event comes
  have idle : e.pendingFor.lookup r.id = none := by
    obtain ⟨device,v,rfl,-⟩ := Trigger.matchesEvent_edge (edges r hr hd) hmatch
    have before := ((Trigger.matchesEvent_stateReported_iff (edges r hr hd)).mp hmatch).2.2
    by_contra hp
    rw [lasting r hr (Option.isSome_iff_ne_none.mpr hp)] at before
    cases before
  -- and none of the rules armed before it has its id
  by_contra hp
  rcases waits_of_armAll (Option.isSome_iff_ne_none.mpr hp) with hw | ⟨r',hr',hid,-⟩
  · rw [arming_pendingFor idle] at hw
    cases hw
  · have hnodup : ((pre ++ r :: post).map Rule.id).Nodup := distinct.sublist (hsub.map Rule.id)
    rw [List.map_append,List.nodup_append] at hnodup
    exact hnodup.2.2 r'.id (List.mem_map_of_mem hr') r.id (by simp) hid

end Arming
theorem Fresh.backed (h : e.Fresh) : e.Backed := by
  have hs : e.adapters.scheduler = ⟨∅⟩ := congrArg Timers.scheduler h.timers
  have hp : e.pendingFor = ∅ := congrArg Timers.pendingFor h.timers
  refine ⟨fun key t _ hd => ?_,fun rule p hl => ?_⟩
  · unfold dueAt at hd
    rw [hs] at hd
    cases hd
  · rw [hp] at hl
    cases hl

/-- A rule that waits has its timer in the scheduler or on the queue, and its predicate holds. -/
theorem Link.waiting {r : Rule} {d : Millis} {w : Wait} (h : Link r d e w)
    {key : TimerKey} (waiting : e.pendingFor.lookup r.id = some ⟨key⟩) :
    r.trigger.predicateHolds e.state = true ∧
      ((e.dueAt key).isSome ∨ (.timerElapsed key,0) ∈ e.queue) := by
  cases w with
  | idle => cases waiting.symm.trans h
  | waiting t =>
    obtain ⟨⟨k,hk,hd⟩,hh⟩ := h
    cases waiting.symm.trans hk
    exact ⟨hh,.inl (by rw [hd]; rfl)⟩
  | due t n =>
    obtain ⟨⟨k,hk,hm⟩,-,-,hh⟩ := h
    cases waiting.symm.trans hk
    exact ⟨hh,.inr hm⟩

end Engine

section Runs
variable {A N : Type} [Adapter A] [NorthboundAdapter N] {π : HashOrder} {host : Host N}
  {c c' : Config A N}

theorem Step.backed (keyed : c.engine.Keyed) (timely : c.engine.Timely Engine.Own)
    (apart : c.engine.CommandsIn Command.Apart) (step : Step π host c c') (h : c.engine.Backed) :
    c'.engine.Backed := by
  have tick (e : Engine A N) (he : e.Backed) : (e.tickAdapters π).Backed := by
    refine he.of_dueAt rfl rfl fun key _ => ?_
    rw [Engine.tickAdapters_dueAt]
    split_ifs
    · exact .inr rfl
    · exact .inl rfl
  cases step with
  | @process e e' p ev depth rest fuel next hp =>
    have popped : ({ e with queue := rest } : Engine A N).Backed := h.of_eq rfl rfl rfl
    refine Engine.Processed.backed popped (keyed.of_eq rfl rfl rfl rfl) ⟨apart.rules,apart.scenes⟩
      (fun rule key hev waiting => ?_) (Engine.process_processed hp)
    subst hev
    have hm : (.timerElapsed key,depth) ∈ e.queue := by simp [next]
    exact (timely.elapsing key depth (keyed.issued waiting).1 hm).2
  | start => exact tick _ (h.of_eq rfl rfl rfl)
  | advance => exact tick _ (h.of_eq rfl rfl rfl)
  | _ => exact h.of_eq rfl rfl rfl

theorem Run.backed {e₀ : Engine A N} {p : Phase} (fresh : e₀.Fresh) (only : SchedulerOnly A host)
    (apart : e₀.CommandsIn Command.Apart) (run : Run π host ⟨e₀,p⟩ c) : c.engine.Backed := by
  induction run with
  | refl => exact fresh.backed
  | tail run step ih =>
    exact step.backed (Run.keyed fresh run)
      (Run.timely fresh only (apart.mono fun _ h => h.avoids) run)
      (apart.of_wiring (Run.wiring run)) ih

end Runs

/-- In every run of an accepted config that stays out of the engine's namespaces, and as long as no
sum of times wraps: at rest the waiting rules and the timers under `__for:` are each other's, each
rule that waits having the predicate it waits on. So whatever expiry comes next passes the second
look at its rule, and whatever event comes next arms no timer in another's place. -/
theorem held_timers_mirror {A N : Type} [Adapter A] [NorthboundAdapter N] {π : HashOrder}
    {host : Host N} {c : Config A N} {b : Builders A N} {lib : Libraries} {raw : RawConfig}
    {cfg : CompiledConfig} (accepted : resolve lib π raw = .ok cfg) {e₀ : Engine A N}
    (built : buildEngineFull b cfg = some e₀) (apart : raw.KeysApart)
    (only : SchedulerOnly A host) {p : Phase} (run : Run π host ⟨e₀,p⟩ c)
    (nowrap : c.engine.overflowed = false) :
    (c.engine.queue = [] → c.engine.MirrorsTimers) ∧
      ∀ ev depth rest, c.engine.queue = (ev,depth) :: rest →
        (∀ key, ev = .timerElapsed key →
          ({ c.engine with queue := rest }.received ev depth).Reverifies key) ∧
        ({ c.engine with queue := rest }.received ev depth).ArmsAfresh π ev := by
  have hb := built_of_accepted accepted built
  have commands := hb.commandsApart accepted apart
  have hwire := Run.wiring run
  have distinct := hb.rulesDistinct accepted
  have distinct' := distinct.of_wiring hwire
  have keyed := Run.keyed hb.fresh run
  have backed := Run.backed hb.fresh only commands run
  have edges (r) (hr : r ∈ c.engine.rules) (hd : r.forDuration.isSome) :
      r.trigger.watched.isSome := by
    rw [hwire.rules] at hr
    exact ((accepted_wellFormed accepted).1 r (hb.rules ▸ hr)).edge hd
  -- every rule that waits has a `for:`, so the history of the run says how far it is
  have waits (rule key) (hp : c.engine.pendingFor.lookup rule = some ⟨key⟩) :
      ∃ r ∈ c.engine.rules, r.id = rule ∧ r.forDuration.isSome ∧
        r.trigger.predicateHolds c.engine.state = true ∧
        ((c.engine.dueAt key).isSome ∨ (.timerElapsed key,0) ∈ c.engine.queue) := by
    obtain ⟨r,hr,rfl,hd⟩ := backed.known rule _ hp
    obtain ⟨d,hd'⟩ := Option.isSome_iff_exists.mp hd
    have hr₀ : r ∈ e₀.rules := hwire.rules ▸ hr
    obtain ⟨w,-,hw⟩ := run.watched hb.fresh only distinct
      (commands.mono fun _ h => h.avoids) hr₀ (edges r hr hd) hd' nowrap
    exact ⟨r,hr,rfl,hd,hw.waiting hp⟩
  refine ⟨fun idle => ⟨keyed.distinct,fun key => ?_,fun rule p hp => ?_⟩,
    fun ev depth rest next => ⟨fun key hev => ?_,?_⟩⟩
  · constructor
    · rintro ⟨rule,hp⟩
      obtain ⟨n,-,hn⟩ := keyed.waiting rule _ hp
      obtain rfl : key = Engine.forKey (n+1) := hn
      refine ⟨Engine.forKey_startsWith (n+1),?_⟩
      obtain ⟨r,-,-,-,-,hd | hm⟩ := waits rule _ hp
      · exact hd
      · rw [idle] at hm
        cases hm
    · rintro ⟨own,hd⟩
      obtain ⟨t,ht⟩ := Option.isSome_iff_exists.mp hd
      exact backed.claimed key t own ht
  · obtain ⟨key⟩ := p
    obtain ⟨r,hr,hid,hd,hh,-⟩ := waits rule key hp
    exact ⟨r,hr,hid,edges r hr hd,hd,hh⟩
  · intro rule hp
    obtain ⟨r,hr,rfl,-,hh,-⟩ := waits rule key hp
    exact ⟨r,distinct'.find hr,hh⟩
  · refine Engine.armsAfresh distinct' edges fun r hr hp => ?_
    obtain ⟨⟨key⟩,hp⟩ := Option.isSome_iff_exists.mp hp
    obtain ⟨r',hr',hid,-,hh,-⟩ := waits r.id key hp
    rwa [distinct'.eq_of_id hr' hr hid] at hh

/-- Someone is there, and the lamp waits to be turned off: one rule waits, and its key is the one
timer that runs. -/
theorem presence_held_timers : ∃ cfg e₀ c rule key,
    resolve plainLibraries .identity presenceConfig = .ok cfg ∧
      buildEngineFull plainBuilders cfg = some e₀ ∧ Run .identity .timerless ⟨e₀,.wired⟩ c ∧
      c.engine.pendingFor.lookup rule = some ⟨key⟩ ∧ c.engine.MirrorsTimers := by
  obtain ⟨cfg,e₀,h,hb,hq,e₁,h₁,e₂,h₂,hw,rule,key,hp⟩ : ∃ cfg e₀,
      resolve plainLibraries .identity presenceConfig = .ok cfg ∧
        buildEngineFull plainBuilders cfg = some e₀ ∧ e₀.queue = [] ∧
        ∃ e₁, e₀.inject .identity 3 (.stateReported ⟨0⟩ (.switch true)) = .ok e₁ ∧
        ∃ e₂, e₁.inject .identity 3 (.stateReported ⟨0⟩ (.occupancy true)) = .ok e₂ ∧
        e₂.overflowed = false ∧ ∃ rule key, e₂.pendingFor.lookup rule = some ⟨key⟩ :=
    ⟨_,_,rfl,rfl,rfl,_,rfl,_,rfl,by decide,⟨0⟩,_,rfl⟩
  have may (v) : (Host.timerless : Host MockNorthbound).injects (.stateReported ⟨0⟩ v) := rfl
  obtain ⟨run₁,q₁⟩ := inject_run .timerless .wired (may _) hq (by decide) h₁
  obtain ⟨run₂,q₂⟩ := inject_run .timerless .wired (may _) q₁ (by decide) h₂
  exact ⟨cfg,e₀,_,rule,key,h,hb,run₁.trans run₂,hp,
    (held_timers_mirror h hb presence_keysApart schedulerOnly_virtual (run₁.trans run₂) hw).1 q₂⟩

end Domiform
