import Domiform.Compile.Keys
import Domiform.Ranges

/-! Delays. A timer is set by adding a delay to the engine's clock. The sum is right as long as no
config asks for a delay that the clock, late in a run, cannot be added to. -/
namespace Domiform
open Library Relation

/-- A timer command asks for at most this delay. -/
def Command.DelayWithin (bound : Millis) : Command → Prop
  | scheduleTimer _ after => after ≤ bound
  | _ => True

theorem Command.DelayWithin.of_not_timer {bound : Millis} {c : Command} (h : c.isTimer = false) :
    c.DelayWithin bound := by
  cases c with
  | scheduleTimer => cases h
  | _ => trivial

theorem Command.DelayWithin.fits {bound now : Millis} {c : Command} (h : c.DelayWithin bound)
    (room : now+bound < 2^64) : Engine.overflows now c = false := by
  cases c with
  | scheduleTimer key after =>
    rw [Engine.overflows,decide_eq_false_iff_not]
    exact Nat.not_le.mpr ((Nat.add_le_add_left h now).trans_lt room)
  | _ => rfl

/-- The commands of a config, and the waits of its rules, ask for at most this delay. -/
structure CompiledConfig.DelaysWithin (bound : Millis) (cfg : CompiledConfig) : Prop where
  rules : ∀ r ∈ cfg.rules, ∀ c ∈ r.commands, c.DelayWithin bound
  scenes : ∀ s ∈ cfg.scenes, ∀ c ∈ s.commands, c.DelayWithin bound
  waits : ∀ r ∈ cfg.rules, ∀ d, r.forDuration = some d → d ≤ bound

/-- A sum that wraps is below what was added to. -/
theorem addMillis_lt_of_wrap {a b : ℕ} (ha : a < 2^64) (hb : b < 2^64) (wrap : 2^64 ≤ a+b) :
    addMillis a b < a := by
  change (a+b) % 2^64 < a
  omega

/-- The doublings of the default policy. -/
theorem RetryPolicy.backoff_default (k : ℕ) : RetryPolicy.default.backoff k = 1000*2^(min k 16-1) ∧
    1000*2^(min k 16-1) ≤ 32768000 := by
  have hp : 2^(min k 16-1) ≤ 2^15 := Nat.pow_le_pow_right (by norm_num) (by omega)
  have hb : 1000*2^(min k 16-1) ≤ 32768000 := by omega
  refine ⟨?_,hb⟩
  rw [backoff,default]
  exact min_eq_left (hb.trans (by norm_num))

namespace Engine
variable {A N : Type}

/-- The last thing the scheduler was told about a key: to report it after this delay, at this time. -/
def SetAt (e : Engine A N) (key : TimerKey) (t after : Millis) : Prop :=
  ∃ pre post, e.dispatches = pre ++ (t,schedulerIdx,.scheduleTimer key after) :: post ∧
    ∀ x ∈ post, x.2.2.Avoids (· = key)

/-- Every sum of times was right so far, and the next ones will be. -/
structure Punctual (bound : Millis) (e : Engine A N) : Prop where
  room : e.now+bound < 2^64
  backoff : ∀ k, e.retry.backoff k ≤ bound
  fits : e.overflowed = false
  kept : ∀ key due, e.dueAt key = some due → ∃ t after, e.SetAt key t after ∧ due = t+after

theorem SetAt.concat {e e' : Engine A N} {key : TimerKey} {t after : Millis}
    {x : Millis × AdapterIdx × Command} (h : e.SetAt key t after)
    (avoids : x.2.2.Avoids (· = key)) (hd : e'.dispatches = e.dispatches ++ [x]) :
    e'.SetAt key t after := by
  obtain ⟨pre,post,he,hp⟩ := h
  refine ⟨pre,post ++ [x],by rw [hd,he]; simp,fun y hy => ?_⟩
  rcases List.mem_append.mp hy with hy | hy
  · exact hp y hy
  · rwa [List.mem_singleton.mp hy]

namespace Punctual
variable {bound : Millis} {e e' : Engine A N}

theorem of_eq (h : e.Punctual bound) (hn : e'.now = e.now) (hr : e'.retry = e.retry)
    (ho : e'.overflowed = e.overflowed) (hd : e'.dispatches = e.dispatches)
    (hs : e'.adapters.scheduler = e.adapters.scheduler) : e'.Punctual bound := by
  obtain ⟨h₁,h₂,h₃,h₄⟩ := h
  refine ⟨by rwa [hn],by rwa [hr],by rwa [ho],?_⟩
  unfold dueAt SetAt at h₄ ⊢
  rwa [hd,hs]

/-- A delay within the bound is added right. -/
theorem schedule (h : e.Punctual bound) {cmd : Command} (within : cmd.DelayWithin bound) :
    (e.schedule cmd).Punctual bound := by
  have fit := within.fits h.room
  refine ⟨h.room,h.backoff,by simp [Engine.schedule,h.fits,fit],fun key due hd => ?_⟩
  by_cases avoids : cmd.Avoids (· = key)
  · rw [e.schedule_dueAt avoids rfl] at hd
    obtain ⟨t,after,hs,hdue⟩ := h.kept key due hd
    exact ⟨t,after,hs.concat avoids rfl,hdue⟩
  · cases cmd with
    | scheduleTimer k after =>
      obtain rfl : k = key := not_not.mp avoids
      have hl := (SchedulerAdapter.lookup_scheduleTimer e.adapters.scheduler k k after e.now).trans
        (if_pos rfl)
      cases hl.symm.trans hd
      refine ⟨e.now,after,⟨e.dispatches,[],rfl,by simp⟩,?_⟩
      rw [overflows,decide_eq_false_iff_not] at fit
      exact Nat.mod_eq_of_lt (Nat.not_le.mp fit)
    | cancelTimer k =>
      obtain rfl : k = key := not_not.mp avoids
      have hl := SchedulerAdapter.lookup_cancelTimer e.adapters.scheduler k k e.now
      rw [if_pos rfl] at hl
      cases hl.symm.trans hd
    | _ => exact absurd trivial avoids

theorem notify (h : e.Punctual bound) (n : Notice) : (e.notify n).Punctual bound :=
  h.of_eq rfl rfl rfl rfl rfl

theorem scheduleRetry (h : e.Punctual bound) (cmd : Command) (failedAttempt serial : ℕ) :
    (e.scheduleRetry cmd failedAttempt serial).Punctual bound := by
  have hb : ({ e with
      retryCounter := e.retryCounter+1
      retries := e.retries.insert (retryKey (e.retryCounter+1)) ⟨cmd,failedAttempt+1,serial⟩
      trace := (e.notify (.retryScheduled cmd (failedAttempt+1)
        (e.retry.backoff failedAttempt))).trace } : Engine A N).Punctual bound :=
    h.of_eq rfl rfl rfl rfl rfl
  exact hb.schedule (h.backoff failedAttempt)

theorem handleOutcome (h : e.Punctual bound) (outcome : DispatchOutcome) (cmd : Command)
    (attempt serial depth : ℕ) :
    (e.handleOutcome outcome cmd attempt serial depth).Punctual bound := by
  cases outcome with
  | ok | permanent => exact h.of_eq rfl rfl rfl rfl rfl
  | transient reason =>
    simp only [Engine.handleOutcome]
    split_ifs
    · exact (h.notify _).scheduleRetry _ _ _
    · exact h.of_eq rfl rfl rfl rfl rfl

theorem cancelForTimer (h : e.Punctual bound) (rule : RuleId) :
    (e.cancelForTimer rule).Punctual bound := by
  have cancelled (key : TimerKey) : ({ e with pendingFor := e.pendingFor.erase rule }.schedule
      (.cancelTimer key)).Punctual bound := by
    have hb : ({ e with pendingFor := e.pendingFor.erase rule } : Engine A N).Punctual bound :=
      h.of_eq rfl rfl rfl rfl rfl
    exact hb.schedule (by trivial)
  unfold Engine.cancelForTimer
  split
  · exact cancelled _
  · exact h

theorem armForTimer (h : e.Punctual bound) (rule : RuleId) {after : Millis} (within : after ≤ bound) :
    (e.armForTimer rule after).Punctual bound := by
  have armed {b : Engine A N} (hb : b.Punctual bound) : ({ b with
      forCounter := b.forCounter+1
      pendingFor := b.pendingFor.insert rule ⟨forKey (b.forCounter+1)⟩ }.schedule
        (.scheduleTimer (forKey (b.forCounter+1)) after)).Punctual bound := by
    have hb' : ({ b with
        forCounter := b.forCounter+1
        pendingFor := b.pendingFor.insert rule ⟨forKey (b.forCounter+1)⟩ } :
          Engine A N).Punctual bound := hb.of_eq rfl rfl rfl rfl rfl
    exact hb'.schedule (by exact within)
  have hc := h.cancelForTimer rule
  unfold Engine.cancelForTimer at hc
  unfold Engine.armForTimer
  cases hl : e.pendingFor.lookup rule with
  | none => exact armed h
  | some prev =>
    rw [hl] at hc
    exact armed hc

variable [Adapter A]

theorem dispatchDevice (h : e.Punctual bound) {cmd : Command} {attempt depth : ℕ}
    {origin : Option ℕ} (target : cmd.targetDevice.isSome)
    (hd : Engine.dispatchDevice cmd attempt origin depth e = .ok e') : e'.Punctual bound := by
  have hi : (e.issue cmd origin).2.Punctual bound := by
    cases origin <;> exact h.of_eq rfl rfl rfl rfl rfl
  have hr := dispatchDevice_routed hd
  generalize (e.issue cmd origin).2 = e₁ at hr hi
  cases hr with
  | bound idx outcome adapters bound' handed =>
    -- the scheduler is not told of a device command, or heeds it not
    have avoids (key : TimerKey) : cmd.Avoids (· = key) := by
      apply Command.Avoids.of_not_timer
      cases cmd <;> first | rfl | cases target
    have hh : (e₁.handOver idx cmd adapters).Punctual bound := by
      refine ⟨hi.room,hi.backoff,hi.fits,fun key due hd => ?_⟩
      unfold dueAt at hd
      rw [handOver,scheduler_of_dispatch target handed] at hd
      obtain ⟨t,after,hs,hdue⟩ := hi.kept key due hd
      exact ⟨t,after,hs.concat (avoids key) rfl,hdue⟩
    have hm : ((e₁.handOver idx cmd adapters).record
        (.handed idx cmd attempt (e.issue cmd origin).1 outcome)).Punctual bound :=
      hh.of_eq rfl rfl rfl rfl rfl
    exact hm.handleOutcome _ _ _ _ _
  | unbound => exact hi.handleOutcome _ _ _ _ _

theorem acts (h : e.Punctual bound) {depth : ℕ}
    (ha : ReflTransGen (Act (Command.DelayWithin bound) depth) e e') : e'.Punctual bound := by
  induction ha with
  | refl => exact h
  | tail _ act ih =>
    cases act with
    | dispatched | expanded => exact ih.notify _
    | timer cmd _ within => exact (ih.schedule within).of_eq rfl rfl rfl rfl rfl
    | device cmd target _ hd => exact ih.dispatchDevice target hd

theorem fire (h : e.Punctual bound) {fuel depth : ℕ} {rule : Rule}
    (within : ∀ c ∈ rule.commands, c.DelayWithin bound)
    (scenes : e.ScenesIn (Command.DelayWithin bound))
    (hf : Engine.fire fuel rule depth e = .ok e') : e'.Punctual bound := by
  have hr : (e.record (.firing rule.id e.state)).Punctual bound := h.of_eq rfl rfl rfl rfl rfl
  exact hr.acts (dispatchAll_acts _ within scenes hf)

variable [NorthboundAdapter N]

omit [Adapter A] in
theorem refan (h : e.Punctual bound) (device : DeviceId) (kind : CapabilityKind) :
    (e.refan device kind).Punctual bound := by
  unfold Engine.refan
  split
  · exact h.of_eq rfl rfl rfl rfl rfl
  · exact h

/-- An event sets the timers of the rules and scenes it reaches, and those of its retries. -/
theorem process (h : e.Punctual bound) (keyed : e.Keyed)
    (commands : e.CommandsIn (Command.DelayWithin bound))
    (waits : ∀ r ∈ e.rules, ∀ d, r.forDuration = some d → d ≤ bound) {π : HashOrder}
    {fuel depth : ℕ} {ev : Event} (hp : Processed π fuel depth e ev e') : e'.Punctual bound := by
  have hrec : (e.received ev depth).Punctual bound := h.notify _
  cases hp with
  | dropped => exact h.notify _
  | retried key p _ _ pending hd =>
    obtain ⟨cmd,target,-,hd⟩ := retry_dispatched (e := e.received (.timerElapsed key) depth)
      (keyed.notify _) pending hd
    have hb : ({ e.received (.timerElapsed key) depth with
        retries := e.retries.erase key } : Engine A N).Punctual bound :=
      h.of_eq rfl rfl rfl rfl rfl
    exact (hb.notify _).dispatchDevice target hd
  | elapsed key _ _ _ _ hf =>
    obtain rfl | ⟨id,-,hf⟩ := fireElapsedFor_cases hf
    · exact hrec
    have hb : ({ e.received (.timerElapsed key) depth with
        pendingFor := e.pendingFor.erase id } : Engine A N).Punctual bound :=
      h.of_eq rfl rfl rfl rfl rfl
    obtain rfl | ⟨rule,-,found,-,hf⟩ := hf
    · exact hb
    · exact hb.fire (commands.rules rule (List.mem_of_find?_eq_some found)) commands.scenes hf
  | changed device desired _ _ hd =>
    simp only [requestChange] at hd
    split at hd
    · rename_i cmd hcmd
      obtain ⟨e₁,h₁,h₂⟩ := bind_ok_iff.mp hd
      cases h₂
      have hs : (e.received (.requestedChange device desired) depth).ScenesIn
        (Command.DelayWithin bound) := commands.scenes
      have ha := dispatchAt_acts _ (.of_not_timer (isTimer_of_requested hcmd)) hs h₁
      exact (hrec.acts ha).refan _ _
    · cases hd
      exact hrec.refan _ _
  | activated scene _ _ hd =>
    have hs : (e.received (.requestedScene scene) depth).ScenesIn (Command.DelayWithin bound) :=
      commands.scenes
    exact hrec.acts (dispatchAt_acts _ (by trivial) hs hd)
  | reacted _ _ _ _ _ hr =>
    obtain ⟨e₂,h₂,hfired,hr⟩ := react_cases hr
    have hw := wiring_received e ev depth
    have hfold : ((e.received ev depth).foldState ev).Punctual bound := by
      cases ev <;> exact h.of_eq rfl rfl rfl rfl rfl
    have hb : e₂.Punctual bound := by
      rcases h₂ with rfl | rfl
      · exact hfold
      · exact List.foldlRecOn _ _ hfold fun b hb r _ => hb.cancelForTimer r
    have hk : (e₂.considerRules ev (e.prior ev)).1.Punctual bound := by
      rw [considerRules_fst]
      exact hb.of_eq rfl rfl rfl rfl rfl
    have hi : Internal (fun _ => True) depth ((e.received ev depth).foldState ev)
        (e₂.considerRules ev (e.prior ev)).1 :=
      (Internal.of_reverted h₂).trans (.of_considerRules e₂ ev _)
    have hs : (e₂.considerRules ev (e.prior ev)).1.ScenesIn (Command.DelayWithin bound) := by
      unfold ScenesIn
      rw [hi.scenes,hw.1]
      exact commands.scenes
    -- the rules that wait are armed, then the others fire one by one, with the same scenes
    have hrun : e'.Punctual bound ∧ e'.ScenesIn (Command.DelayWithin bound) := by
      refine runFired_induct (I := fun b => b.Punctual bound ∧
        b.ScenesIn (Command.DelayWithin bound)) (fun r hm after hd b hb => ?_)
        (fun r hm _ b b' hb hf => ?_) hr ⟨hk,hs⟩
      · have ha : Internal (fun _ => True) depth b (b.armForTimer r.id after) :=
          .of_armForTimer b r.id after
        refine ⟨hb.1.armForTimer r.id (waits r ((hfired r).mp hm).1 after hd),?_⟩
        rw [ScenesIn,ha.scenes]
        exact hb.2
      · refine ⟨hb.1.fire (commands.rules r ((hfired r).mp hm).1) hb.2 hf,?_⟩
        rw [ScenesIn,fire_scenes hf]
        exact hb.2
    exact hrun.1

/-- A tick only takes timers out. -/
theorem tick (h : e.Punctual bound) (π : HashOrder) : (e.tickAdapters π).Punctual bound := by
  refine ⟨h.room,h.backoff,h.fits,fun key due hd => h.kept key due ?_⟩
  rw [tickAdapters_dueAt] at hd
  split_ifs at hd
  exact hd

end Punctual
end Engine

section Run
variable {A N : Type} [Adapter A] [NorthboundAdapter N]

/-- The host advances time by `dt`. -/
inductive Advances (π : HashOrder) (dt : Millis) : Config A N → Config A N → Prop
  | advance {e : Engine A N} {p : Phase} (idle : e.queue = []) (ready : p ≠ .booting) :
      Advances π dt ⟨e,p⟩ ⟨(e.elapse dt).tickAdapters π,p⟩

/-- A run in which time is advanced by `t` in all. -/
inductive RunFor (π : HashOrder) (host : Host N) (c₀ : Config A N) : Millis → Config A N → Prop
  | refl : RunFor π host c₀ 0 c₀
  | advance {t dt : Millis} {c c' : Config A N} (run : RunFor π host c₀ t c)
      (step : Advances π dt c c') : RunFor π host c₀ (t+dt) c'
  | other {t : Millis} {c c' : Config A N} (run : RunFor π host c₀ t c) (step : Step π host c c')
      (other : ∀ dt, ¬Advances π dt c c') : RunFor π host c₀ t c'

variable {π : HashOrder} {host : Host N} {c c' : Config A N}

theorem Advances.step {dt : Millis} (h : Advances π dt c c') : Step π host c c' := by
  cases h with
  | advance idle ready => exact .advance dt idle ready

/-- Every run advances time by some sum. -/
theorem Run.runFor {c₀ : Config A N} (run : Run π host c₀ c) : ∃ t, RunFor π host c₀ t c := by
  induction run with
  | refl => exact ⟨0,.refl⟩
  | @tail b c _ step ih =>
    obtain ⟨t,ht⟩ := ih
    by_cases ha : ∃ dt, Advances π dt b c
    · obtain ⟨dt,ha⟩ := ha
      exact ⟨t+dt,ht.advance ha⟩
    · exact ⟨t,ht.other step fun dt h => ha ⟨dt,h⟩⟩

theorem RunFor.run {c₀ : Config A N} {t : Millis} (h : RunFor π host c₀ t c) :
    Run π host c₀ c := by
  induction h with
  | refl => exact .refl
  | advance _ step ih => exact ih.tail step.step
  | other _ step _ ih => exact ih.tail step

/-- Time that does not wrap is the time advanced, and every step keeps the sums right. -/
theorem RunFor.punctual {bound t : Millis} {e₀ : Engine A N} {p : Phase} (fresh : e₀.Fresh)
    (zero : e₀.now = 0) (backoff : ∀ k, e₀.retry.backoff k ≤ bound)
    (commands : e₀.CommandsIn (Command.DelayWithin bound))
    (waits : ∀ r ∈ e₀.rules, ∀ d, r.forDuration = some d → d ≤ bound)
    (run : RunFor π host ⟨e₀,p⟩ t c) (room : t+bound < 2^64) :
    c.engine.now = t ∧ c.engine.Punctual bound := by
  induction run with
  | refl =>
    refine ⟨zero,by rw [zero]; exact room,backoff,fresh.overflowed,fun key due hd => ?_⟩
    have hs : e₀.adapters.scheduler = ⟨∅⟩ := congrArg Timers.scheduler fresh.timers
    unfold Engine.dueAt at hd
    rw [hs] at hd
    cases hd
  | @advance t dt b c run step ih =>
    obtain ⟨hn,hb⟩ := ih ((Nat.add_le_add_right (Nat.le_add_right t dt) bound).trans_lt room)
    cases step with
    | @advance e p idle ready =>
      have hsum : e.now+dt = t+dt := congrArg (· + dt) hn
      have hfit : e.now+dt < 2^64 := hsum ▸ (Nat.le_add_right _ bound).trans_lt room
      have hnow : (e.elapse dt).now = t+dt := (Nat.mod_eq_of_lt hfit).trans hsum
      have hb' : (e.elapse dt).Punctual bound := by
        refine ⟨(congrArg (· + bound) hnow).trans_lt room,hb.backoff,?_,hb.kept⟩
        exact Bool.or_eq_false_iff.mpr ⟨hb.fits,decide_eq_false (Nat.not_le.mpr hfit)⟩
      exact ⟨hnow,hb'.tick π⟩
  | @other t b c run step other ih =>
    obtain ⟨hn,hb⟩ := ih room
    have hw := Run.wiring run.run
    cases step with
    | @start e =>
      have hb' : (e.record .started).Punctual bound := hb.of_eq rfl rfl rfl rfl rfl
      exact ⟨hn,hb'.tick π⟩
    | synced | inject | addNorthbound => exact ⟨hn,hb.of_eq rfl rfl rfl rfl rfl⟩
    | advance dt idle ready => exact absurd (.advance idle ready) (other dt)
    | @process e e' q ev depth rest fuel next hp =>
      have hp' := Engine.process_processed hp
      have hb' : ({ e with queue := rest } : Engine A N).Punctual bound := hb.of_eq rfl rfl rfl rfl rfl
      have keyed : ({ e with queue := rest } : Engine A N).Keyed :=
        (Run.keyed fresh run.run).of_eq rfl rfl rfl rfl
      have hc : ({ e with queue := rest } : Engine A N).CommandsIn (Command.DelayWithin bound) :=
        commands.of_wiring ⟨hw.rules,hw.deviceToAdapter,hw.scenes,hw.retry,hw.maxCascadeDepth,hw.size⟩
      have hrules : e.rules = e₀.rules := hw.rules
      exact ⟨hp'.now.trans hn,hb'.process keyed hc (by rw [hrules]; exact waits) hp'⟩

end Run

/-- The clock of a run is the time advanced in all. Added to delays that leave it below `2^64`, and to
the backoffs of the default policy, it never wraps, and no timer is reported before its full delay has
passed since it was last set. A longer delay, set then, wraps and is over at once. -/
theorem timer_sums_are_right {A N : Type} [Adapter A] [NorthboundAdapter N] {b : Builders A N}
    {lib : Libraries} {π π' : HashOrder} {host : Host N} {raw : RawConfig} {cfg : CompiledConfig}
    (accepted : resolve lib π raw = .ok cfg) {e₀ : Engine A N}
    (built : buildEngineFull b cfg = some e₀) {p : Phase} {t bound : Millis} {c : Config A N}
    (run : RunFor π' host ⟨e₀,p⟩ t c) (total : t < 2^63) (short : cfg.DelaysWithin bound)
    (room : t+bound < 2^64) :
    c.engine.now = t ∧ c.engine.overflowed = false ∧
      (∀ k, c.engine.retry.backoff k = 1000*2^(min k 16-1) ∧ 1000*2^(min k 16-1) < 2^64) ∧
      (∀ π'' n now key, .timerElapsed key ∈ (c.engine.adapters.scheduler.tick π'' n now).1 →
        ∃ set after, c.engine.SetAt key set after ∧ set+after ≤ now) ∧
      ∀ key after, after < 2^64 → 2^64 ≤ t+after →
        (c.engine.schedule (.scheduleTimer key after)).overflowed = true ∧
        ∃ due, (c.engine.schedule (.scheduleTimer key after)).dueAt key = some due ∧ due < t := by
  obtain ⟨zero,policy⟩ := buildEngineFull_initial built
  have hb := built_of_accepted accepted built
  have scenes : e₀.ScenesIn (Command.DelayWithin bound) := by
    refine hb.scenesIn short.scenes ?_
    obtain ⟨-,-,-,hs,-⟩ := resolve_eq_ok accepted
    rw [hs]
    exact scenes_nodup lib raw
  have within (c : Command) (h : c.DelayWithin bound) : c.DelayWithin (max bound 32768000) := by
    cases c with
    | scheduleTimer key after => exact le_max_of_le_left (by exact h)
    | _ => trivial
  have commands : e₀.CommandsIn (Command.DelayWithin bound) := by
    refine ⟨?_,scenes⟩
    unfold Engine.RulesIn
    rw [hb.rules]
    exact short.rules
  have room' : t+max bound 32768000 < 2^64 := by
    rcases max_choice bound 32768000 with hm | hm
    · rwa [hm]
    · rw [hm]
      exact (Nat.add_lt_add_right total _).trans_le (by norm_num)
  obtain ⟨now,punctual⟩ := run.punctual hb.fresh zero
    (fun k => by
      rw [policy,(RetryPolicy.backoff_default k).1]
      exact le_max_of_le_right (RetryPolicy.backoff_default k).2)
    (commands.mono within)
    (fun r hr d hd => le_max_of_le_left (short.waits r (hb.rules ▸ hr) d hd)) room'
  refine ⟨now,punctual.fits,fun k => ?_,fun π'' n now' key hm => ?_,fun key after hafter hwrap => ?_⟩
  · obtain ⟨hk,hle⟩ := RetryPolicy.backoff_default k
    rw [(Run.wiring run.run).retry,policy]
    exact ⟨hk,hle.trans_lt (by norm_num)⟩
  · obtain ⟨key,hk,he⟩ := List.mem_map.mp hm
    cases he
    obtain ⟨due,hl,hle⟩ := SchedulerAdapter.mem_due_keys.mp hk
    obtain ⟨set,after,hset,rfl⟩ := punctual.kept key due hl
    exact ⟨set,after,hset,hle⟩
  · rw [← now] at hwrap total ⊢
    refine ⟨?_,_,(SchedulerAdapter.lookup_scheduleTimer _ _ _ _ _).trans (if_pos rfl),?_⟩
    · exact Bool.or_eq_true_iff.mpr (.inr (decide_eq_true hwrap))
    · exact addMillis_lt_of_wrap (total.trans (by norm_num)) hafter hwrap

/-- A scene that sets a timer. -/
def snoozeConfig (after : String) : RawConfig where
  system := .default
  adapters := .empty
  devices := .empty
  scenes := .single "snooze" [.mapping [(.string "schedule_timer",.mapping [
    (.string "key",.string "off"),(.string "after",.string after)])]]
  schedules := .empty
  rules := .empty

theorem Advances.grows {A N : Type} [Adapter A] [NorthboundAdapter N] {π : HashOrder} {dt : Millis}
    {c c' : Config A N} (h : Advances π dt c c') :
    c.engine.queue = [] ∧ c'.engine.trace.length = c.engine.trace.length+1 := by
  cases h with
  | advance idle => exact ⟨idle,by simp⟩

/-- A timer of an hour is over after an hour. -/
theorem snooze_lasts_an_hour : ∃ cfg e₀ c,
    resolve plainLibraries .identity (snoozeConfig "1h") = .ok cfg ∧
    buildEngineFull partyBuilders cfg = some e₀ ∧ RunFor .identity .any ⟨e₀,.wired⟩ 0 c ∧
    .timerElapsed ⟨"off"⟩ ∈ (c.engine.adapters.scheduler.tick .identity 0 3600000).1 ∧
    ∃ set after, c.engine.SetAt ⟨"off"⟩ set after ∧ set+after ≤ 3600000 := by
  obtain ⟨cfg,e₀,h,hb,hr,hs,hq,e₁,h₁,hm⟩ : ∃ cfg e₀,
      resolve plainLibraries .identity (snoozeConfig "1h") = .ok cfg ∧
      buildEngineFull partyBuilders cfg = some e₀ ∧ cfg.rules = [] ∧
      cfg.scenes.map CompiledScene.commands = [[.scheduleTimer ⟨"off"⟩ 3600000]] ∧ e₀.queue = [] ∧
      ∃ e₁, Engine.process .identity 2 (.requestedScene ⟨0⟩) 0
        { e₀.enqueue (.requestedScene ⟨0⟩) 0 with queue := [] } = .ok e₁ ∧
      .timerElapsed ⟨"off"⟩ ∈ (e₁.adapters.scheduler.tick .identity 0 3600000).1 :=
    ⟨_,_,rfl,rfl,rfl,rfl,rfl,_,rfl,by decide⟩
  have short : cfg.DelaysWithin 3600000 := by
    refine ⟨by simp [hr],fun s hs' c hc => ?_,by simp [hr]⟩
    have hmem := List.mem_map_of_mem (f := CompiledScene.commands) hs'
    rw [hs,List.mem_singleton] at hmem
    rw [hmem,List.mem_singleton] at hc
    rw [hc]
    exact Nat.le_refl _
  have next : (e₀.enqueue (.requestedScene ⟨0⟩) 0).queue = [(.requestedScene ⟨0⟩,0)] := by
    simp [Engine.enqueue,hq]
  have run : RunFor .identity .any ⟨e₀,.wired⟩ 0 ⟨e₁,.wired⟩ := by
    refine (RunFor.refl.other (.inject _ trivial hq (by decide)) fun dt ha => ?_).other
      (.process 2 next h₁) fun dt ha => ?_
    · exact absurd ha.grows.2 (Nat.ne_of_lt (Nat.lt_succ_self _))
    · exact absurd (next.symm.trans ha.grows.1) (List.cons_ne_nil _ _)
  obtain ⟨-,-,-,late,-⟩ :=
    timer_sums_are_right h hb run (by norm_num) short (by norm_num)
  exact ⟨cfg,e₀,_,h,hb,run,hm,late _ _ _ _ hm⟩

/-- A timer of the longest delay a config can name, set after five milliseconds, is over after one
more. -/
theorem snooze_ends_at_once : ∃ cfg e₀ e₁ e₂ e₃,
    resolve plainLibraries .identity (snoozeConfig "18446744073709551615ms") = .ok cfg ∧
    buildEngineFull partyBuilders cfg = some e₀ ∧ e₀.advance .identity 3 5 = .ok e₁ ∧
    e₁.inject .identity 3 (.requestedScene ⟨0⟩) = .ok e₂ ∧
    e₂.SetAt ⟨"off"⟩ 5 18446744073709551615 ∧ e₂.overflowed = true ∧
    e₂.advance .identity 3 1 = .ok e₃ ∧
    (6,.notice (.eventReceived (.timerElapsed ⟨"off"⟩) 0)) ∈ e₃.trace := by
  refine ⟨_,_,_,_,_,rfl,rfl,rfl,rfl,⟨_,[],rfl,by simp⟩,rfl,rfl,?_⟩
  exact List.mem_of_getElem? (i := 11) rfl

end Domiform
