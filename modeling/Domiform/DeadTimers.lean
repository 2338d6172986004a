import Domiform.Compile.Findings
import Domiform.Compile.Keys
import Domiform.Engine.Marks
import Domiform.Ranges
import Domiform.Waiting

/-! Dead timers. A key that no command schedules can still be that of a retry, or lie in the
namespace of the `for:` timers; the engine takes either for itself, so no rule ever sees it. -/
namespace Domiform
open Library Relation

/-- A command that does not schedule the key; it may cancel it. -/
def Command.Spares (key : TimerKey) : Command → Prop
  | scheduleTimer k _ => key ≠ k
  | _ => True

theorem Command.Spares.of_not_timer {key : TimerKey} {c : Command} (h : c.isTimer = false) :
    c.Spares key := by
  cases c with
  | scheduleTimer => cases h
  | _ => trivial

namespace Engine
variable {A N : Type} {e e' : Engine A N} {key : TimerKey}

/-- Whether an elapsed key waits in the queue. -/
def Elapsing (e : Engine A N) (key : TimerKey) : Prop :=
  ∃ depth, (Event.timerElapsed key,depth) ∈ e.queue

/-- Where the key is due or has elapsed, a retry is pending under it. -/
structure Served (e : Engine A N) (key : TimerKey) : Prop where
  due : e.dueAt key ≠ none → (e.retries.lookup key).isSome
  elapsing : e.Elapsing key → (e.retries.lookup key).isSome ∧ e.dueAt key = none

theorem Served.of_eq (h : e.Served key) (hd : e'.dueAt key = e.dueAt key ∨ e'.dueAt key = none)
    (hr : e'.retries.lookup key = e.retries.lookup key) (hq : e'.Elapsing key → e.Elapsing key) :
    e'.Served key := by
  constructor
  · intro due
    rw [hr]
    rcases hd with hd | hd
    · rw [hd] at due
      exact h.due due
    · exact absurd hd due
  · intro elapsing
    obtain ⟨hs,hn⟩ := h.elapsing (hq elapsing)
    rw [hr]
    refine ⟨hs,?_⟩
    rcases hd with hd | hd
    · exact hd.trans hn
    · exact hd

/-- A key that is neither due nor elapsing needs no retry. -/
theorem Served.of_absent (hd : e.dueAt key = none) (hq : ¬e.Elapsing key) : e.Served key :=
  ⟨fun due => absurd hd due,fun elapsing => absurd elapsing hq⟩

/-- A pending retry keeps its number, so a new one is never in its place. -/
theorem Served.retried (h : e.Served key) (keyed : e.Keyed) (hr : Retried e e')
    (hq : e'.Elapsing key → e.Elapsing key) : e'.Served key := by
  cases hr with
  | kept retries _ scheduler =>
    refine h.of_eq (.inl ?_) (by rw [retries]) hq
    rw [dueAt,scheduler,dueAt]
  | scheduled p delay _ retries _ scheduler =>
    by_cases hk : key = retryKey (e.retryCounter+1)
    · have hl : (e'.retries.lookup key).isSome := by
        rw [retries,HashMap.lookup_insert,if_pos hk]
        rfl
      refine ⟨fun _ => hl,fun elapsing => ?_⟩
      obtain ⟨q,hq⟩ := Option.isSome_iff_exists.mp (h.elapsing (hq elapsing)).1
      obtain ⟨⟨n,hn,hkey⟩,-⟩ := keyed.retrying key q hq
      have := retryKey_injective (hk.symm.trans hkey)
      omega
    · refine h.of_eq (.inl ?_) ?_ hq
      · rw [dueAt,scheduler,HashMap.lookup_insert,if_neg hk,dueAt]
      · rw [retries,HashMap.lookup_insert,if_neg hk]

variable [Adapter A] [NorthboundAdapter N] {again : TimerKey → Prop}

/-- A move that does not take up the retry of the key leaves it served. -/
theorem Served.move (h : e.Served key) (keyed : e.Keyed) (timerless : Adapter.DispatchTimerless A)
    (foreign : key.startsWith forKeyPrefix = false) (other : ∀ k, again k → key ≠ k)
    (hm : Move (Command.Spares key) again e e') : e'.Served key := by
  have hq : e'.Elapsing key → e.Elapsing key := by
    obtain ⟨evs,he,hevs⟩ := hm.queue timerless
    rintro ⟨depth,hx⟩
    exact ⟨depth,(Timely.of_append he hevs).mp hx⟩
  cases hm with
  | notice | firing | elapse => exact h.of_eq (.inl rfl) rfl hq
  | fold ev => cases ev <;> exact h.of_eq (.inl rfl) rfl hq
  | refan device kind =>
    revert hq
    unfold refan
    split <;> exact h.of_eq (.inl rfl) rfl
  | cancel rule =>
    refine h.of_eq ?_ ?_ hq
    · rw [cancelForTimer_dueAt]
      split_ifs
      · exact .inr rfl
      · exact .inl rfl
    · unfold cancelForTimer
      split <;> rfl
  | arm rule after =>
    refine h.of_eq ?_ ?_ hq
    · rw [armForTimer_dueAt,if_neg]
      · split_ifs
        · exact .inr rfl
        · exact .inl rfl
      · rintro rfl
        rw [forKey_startsWith] at foreign
        cases foreign
    · unfold armForTimer
      split <;> rfl
  | timer cmd timer spares =>
    refine h.of_eq ?_ rfl hq
    cases cmd with
    | scheduleTimer k after =>
      exact .inl ((SchedulerAdapter.lookup_scheduleTimer _ k key after _).trans (if_neg spares))
    | cancelTimer k =>
      have hl := SchedulerAdapter.lookup_cancelTimer e.adapters.scheduler k key e.now
      by_cases hk : key = k
      · exact .inr (hl.trans (if_pos hk))
      · exact .inl (hl.trans (if_neg hk))
    | _ => cases timer
  | device cmd depth target _ hd => exact h.retried keyed (dispatchDevice_retried target hd) hq
  | retry fuel k p may pending _ hd =>
    obtain ⟨cmd,target,-,hd⟩ := retry_dispatched keyed pending hd
    have hs : ({ e with retries := e.retries.erase k }.notify (.commandDispatched cmd 0)).Served
        key := by
      refine h.of_eq (.inl rfl) ?_ id
      exact (HashMap.lookup_erase _ _ _).trans (if_neg (other k may))
    exact hs.retried ((keyed.eraseRetry k).notify _) (dispatchDevice_retried target hd) hq

theorem Served.moves (h : e.Served key) (keyed : e.Keyed) (timerless : Adapter.DispatchTimerless A)
    (foreign : key.startsWith forKeyPrefix = false) (other : ∀ k, again k → key ≠ k)
    (hm : Moves (Command.Spares key) again e e') : e'.Served key := by
  have inv : e'.Served key ∧ e'.Keyed := by
    induction hm with
    | refl => exact ⟨h,keyed⟩
    | tail _ hm ih => exact ⟨ih.1.move ih.2 timerless foreign other hm,ih.2.move hm⟩
  exact inv.1

omit [Adapter A] [NorthboundAdapter N] in
theorem Fresh.served (h : e.Fresh) : e.Served key := by
  have hs : e.adapters.scheduler = ⟨∅⟩ := congrArg Timers.scheduler h.timers
  refine .of_absent ?_ ?_
  · rw [dueAt,hs]
    rfl
  · rintro ⟨depth,hm⟩
    rw [h.queue] at hm
    cases hm

/-- What a tick reports was due before, and is due no longer. -/
theorem Served.tick {host : Host N} (π : HashOrder) (only : SchedulerOnly A host) (h : e.Served key)
    (idle : e.queue = []) : (e.tickAdapters π).Served key := by
  constructor
  · intro due
    refine h.due fun hn => due ?_
    rw [tickAdapters_dueAt,hn,ite_self]
  · rintro ⟨depth,hm⟩
    obtain ⟨-,t,ht,hle⟩ := (mem_tickAdapters_queue π only idle).mp hm
    refine ⟨h.due (by rw [ht]; exact Option.some_ne_none t),?_⟩
    rw [tickAdapters_dueAt,if_pos ⟨t,ht,hle⟩]

/-- Where the key has elapsed, it elapses once, and its retry is taken up again. -/
theorem Served.taken {π : HashOrder} {fuel depth : ℕ} {rest : List (Event × ℕ)}
    (h : e.Served key) (keyed : e.Keyed) (timely : e.Timely fun _ => False)
    (timerless : Adapter.DispatchTimerless A) (foreign : key.startsWith forKeyPrefix = false)
    (next : e.queue = (.timerElapsed key,depth) :: rest)
    (hp : { e with queue := rest }.process π fuel (.timerElapsed key) depth = .ok e') :
    e'.Served key := by
  obtain ⟨pending,hdue⟩ := h.elapsing ⟨depth,by rw [next]; exact List.mem_cons_self⟩
  have hrest : ∀ d, (Event.timerElapsed key,d) ∉ rest := by
    intro d hm
    have once := timely.once
    rw [next,List.map_cons,List.filter_cons_of_pos rfl,List.nodup_cons] at once
    exact once.1 (List.mem_filter.mpr ⟨List.mem_map.mpr ⟨_,hm,rfl⟩,rfl⟩)
  have hq : ¬({ e with queue := rest } : Engine A N).Elapsing key := fun ⟨d,hm⟩ => hrest d hm
  cases process_processed hp with
  | dropped => exact .of_absent hdue hq
  | retried _ p _ le hl hd =>
    let e₁ := ({ e with queue := rest } : Engine A N).received (.timerElapsed key) depth
    have keyed₁ : e₁.Keyed := keyed.of_eq rfl rfl rfl rfl
    have hm : Move (fun _ => True) (fun _ => True) e₁ e' := .retry (e := e₁) fuel key p trivial hl e' hd
    obtain ⟨evs,he,hevs⟩ := hm.queue timerless
    obtain ⟨cmd,target,-,hd⟩ := retry_dispatched (e := e₁) keyed₁ hl hd
    have hs : ({ e₁ with retries := e₁.retries.erase key }.notify
        (.commandDispatched cmd 0)).Served key := .of_absent hdue hq
    apply hs.retried ((keyed₁.eraseRetry key).notify _) (dispatchDevice_retried target hd)
    rintro ⟨d,hx⟩
    exact ⟨d,(Timely.of_append he hevs).mp hx⟩
  | elapsed _ _ le hn own => exact absurd (own.symm.trans foreign) (by simp)
  | reacted _ _ le ordinary =>
    have hi : e.intercepts (.timerElapsed key) = false := ordinary
    rw [intercepts,pending] at hi
    cases hi

end Engine

variable {A N : Type} [Adapter A] [NorthboundAdapter N] {π : HashOrder} {host : Host N}
  {c c' : Config A N} {key : TimerKey}

theorem Step.served (only : SchedulerOnly A host) (foreign : key.startsWith forKeyPrefix = false)
    (spares : c.engine.CommandsIn (Command.Spares key)) (keyed : c.engine.Keyed)
    (timely : c.engine.Timely fun _ => False) (step : Step π host c c') (h : c.engine.Served key) :
    c'.engine.Served key := by
  cases step with
  | @start e p idle ready =>
    exact Engine.Served.tick (e := e.record .started) π only (h.of_eq (.inl rfl) rfl id) idle
  | @advance e p dt idle ready =>
    exact Engine.Served.tick (e := e.elapse dt) π only (h.of_eq (.inl rfl) rfl id) idle
  | synced | addNorthbound => exact h.of_eq (.inl rfl) rfl id
  | @inject e p ev may idle ready =>
    refine h.of_eq (.inl rfl) rfl ?_
    rintro ⟨depth,hm⟩
    have hn := only.injected ev may
    exact ⟨depth,(Engine.Timely.of_append rfl (by simpa using hn)).mp hm⟩
  | @process e e' p ev depth rest fuel next hp =>
    by_cases hev : ev = .timerElapsed key
    · subst hev
      exact Engine.Served.taken h keyed timely only.dispatched foreign next hp
    · have hs : ({ e with queue := rest } : Engine A N).Served key := by
        refine h.of_eq (.inl rfl) rfl ?_
        rintro ⟨d,hm⟩
        refine ⟨d,?_⟩
        rw [show e.queue = _ from next]
        exact List.mem_cons_of_mem _ hm
      refine hs.moves (keyed.of_eq rfl rfl rfl rfl) only.dispatched foreign ?_
        (spares.moves (fun _ => .of_not_timer) hp)
      rintro k ⟨hk,-⟩ rfl
      exact hev hk

theorem Run.served {e₀ : Engine A N} {p : Phase} (fresh : e₀.Fresh) (only : SchedulerOnly A host)
    (foreign : key.startsWith forKeyPrefix = false)
    (spares : e₀.CommandsIn (Command.Spares key)) (run : Run π host ⟨e₀,p⟩ c) :
    c.engine.Served key := by
  induction run with
  | refl => exact fresh.served
  | @tail c₁ _ run step ih =>
    have avoid : e₀.CommandsIn (Command.Avoids fun _ => False) :=
      spares.mono fun c _ => by cases c <;> first | trivial | exact not_false
    have timely : c₁.engine.Timely fun _ => False := Run.timely fresh only avoid run
    exact step.served only foreign (spares.of_wiring (Run.wiring run)) (Run.keyed fresh run)
      timely ih

/-- The expiry of a key that no command schedules never gets past the engine. -/
theorem Run.intercepted {e₀ : Engine A N} {p : Phase} (fresh : e₀.Fresh)
    (only : SchedulerOnly A host) (spares : e₀.CommandsIn (Command.Spares key))
    (run : Run π host ⟨e₀,p⟩ c) (elapsing : c.engine.Elapsing key) :
    c.engine.intercepts (.timerElapsed key) = true := by
  rw [Engine.intercepts,Bool.or_eq_true]
  by_cases own : key.startsWith forKeyPrefix = true
  · exact .inr own
  · exact .inl ((Run.served fresh only (Bool.not_eq_true _ ▸ own) spares run).elapsing elapsing).1

/-- Only the expiry of its key matches the trigger of a timer. -/
theorem Trigger.matchesEvent_timer {ev : Event} {prior : Option CapabilityState}
    (h : (Trigger.timer key).matchesEvent ev prior = true) : ev = .timerElapsed key := by
  cases ev with
  | timerElapsed k =>
    have hk : key = k := by simpa [matchesEvent] using h
    rw [hk]
  | _ => cases h

/-- No rule that waits for a key no command schedules is ever matched. -/
theorem Run.unmatched {e₀ : Engine A N} {p : Phase} (fresh : e₀.Fresh)
    (only : SchedulerOnly A host) (spares : e₀.CommandsIn (Command.Spares key))
    (run : Run π host ⟨e₀,p⟩ c) {r : Rule} (waits : r.trigger = .timer key) {ev : Event} {depth : ℕ}
    {rest : List (Event × ℕ)} (next : c.engine.queue = (ev,depth) :: rest)
    (shown : c.engine.Considers ev depth) : r ∉ c.engine.matched ev := by
  intro hr
  have hm := (Engine.mem_matched.mp hr).2
  rw [waits] at hm
  obtain rfl := Trigger.matchesEvent_timer hm
  have elapsing : c.engine.Elapsing key := ⟨depth,by rw [next]; exact List.mem_cons_self⟩
  have hi := run.intercepted fresh only spares elapsing
  rw [shown.2.1] at hi
  cases hi

/-- Nor is it ever considered. -/
theorem Run.unconsidered {e₀ : Engine A N} {p : Phase} (fresh : e₀.Fresh)
    (only : SchedulerOnly A host) (spares : e₀.CommandsIn (Command.Spares key))
    (distinct : e₀.RulesDistinct) {r : Rule} (hr : r ∈ e₀.rules) (waits : r.trigger = .timer key)
    (run : Run π host ⟨e₀,p⟩ c) {truth : Truth} {fired : Bool} :
    RuleMark.considered r.id truth fired ∉ c.engine.marks := by
  induction run with
  | refl =>
    rw [Engine.marks,fresh.trace]
    exact List.not_mem_nil
  | tail run step ih =>
    intro hm
    rcases step.considered hm with hm | ⟨ev,depth,rest,next,shown,r',hr',hid⟩
    · exact ih hm
    · have hw := Run.wiring run
      have hmem := (Engine.mem_matched.mp hr').1
      rw [hw.rules] at hmem
      rw [distinct.eq_of_id hmem hr hid] at hr'
      exact Run.unmatched fresh only spares run waits next shown hr'

omit [Adapter A] [NorthboundAdapter N] in
/-- No command of an accepted config schedules a timer that is said to dangle. -/
theorem Built.spares {b : Builders A N} {lib : Libraries} {raw : RawConfig} {cfg : CompiledConfig}
    {e : Engine A N} (h : Built b cfg e) (accepted : resolve lib π raw = .ok cfg) {key : String}
    (dead : Resolve.danglingTimer key ∈ cfg.warnings) : e.CommandsIn (Command.Spares ⟨key⟩) := by
  have unscheduled := Resolve.not_scheduled_of_dangling accepted dead
  have spares {c : Command} (hc : (∃ s ∈ cfg.scenes, c ∈ s.commands) ∨
      ∃ r ∈ cfg.rules, c ∈ r.commands) : c.Spares ⟨key⟩ := by
    obtain ⟨context,v,-,hv,hn⟩ := line_of_command accepted hc
    cases c with
    | scheduleTimer k after =>
      rintro rfl
      exact unscheduled (hn _ (Lowerer.scheduledKey_noted _ _ hv))
    | _ => trivial
  refine ⟨?_,h.scenesIn (fun s hs c hc => spares (.inl ⟨s,hs,hc⟩)) ?_⟩
  · intro r hr c hc
    rw [h.rules] at hr
    exact spares (.inr ⟨r,hr,hc⟩)
  · obtain ⟨-,-,-,hs,-⟩ := resolve_eq_ok accepted
    rw [hs]
    exact scenes_nodup lib raw

section House
variable {T C Z : Type} [MqttTransport T] [MatterController C] [ZwaveClient Z]

theorem tickTimerless_northbound : Adapter.TickTimerless (RestApiAdapter ⊕ MockNorthbound) := by
  intro n now
  cases n with
  | inl a =>
    refine timerless_map (fun x => ?_) _
    cases x <;> rfl
  | inr m => exact MockNorthbound.tickTimerless m now

/-- None of the adapters of the repository reports the expiry of a timer. -/
theorem schedulerOnly_house : SchedulerOnly (SouthboundAdapter T C Z)
    (.timerless : Host (RestApiAdapter ⊕ MockNorthbound)) :=
  ⟨fun _ h => h,SouthboundAdapter.dispatchTimerless,SouthboundAdapter.tickTimerless,
    tickTimerless_northbound⟩

/-- Where an accepted config says that a timer key dangles, no run in which the host injects no
expiry ever matches, or considers, a rule that waits for it. -/
theorem dead_timers_never_ring
    {b : Builders (SouthboundAdapter T C Z) (RestApiAdapter ⊕ MockNorthbound)} {lib : Libraries}
    {π π' : HashOrder} {raw : RawConfig} {cfg : CompiledConfig}
    (accepted : resolve lib π raw = .ok cfg) {key : String}
    (dead : Resolve.danglingTimer key ∈ cfg.warnings) {e₀ : HouseEngine T C Z}
    (built : buildEngineFull b cfg = some e₀) {p : Phase}
    {c : Config (SouthboundAdapter T C Z) (RestApiAdapter ⊕ MockNorthbound)}
    (run : Run π' .timerless ⟨e₀,p⟩ c) {r : Rule} (hr : r ∈ cfg.rules)
    (waits : r.trigger = .timer ⟨key⟩) :
    (∀ ev depth rest, c.engine.queue = (ev,depth) :: rest → c.engine.Considers ev depth →
      r ∉ c.engine.matched ev) ∧
      ∀ t truth fired, (t,Entry.notice (.ruleConsidered r.id truth fired)) ∉ c.engine.trace := by
  have hb := built_of_accepted accepted built
  have spares := hb.spares accepted dead
  constructor
  · intro ev depth rest next shown
    exact run.unmatched hb.fresh schedulerOnly_house spares waits next shown
  · intro t truth fired hm
    rw [← hb.rules] at hr
    exact run.unconsidered hb.fresh schedulerOnly_house spares (hb.rulesDistinct accepted) hr waits
      (List.mem_filterMap.mpr ⟨_,hm,rfl⟩)

end House

/-- A rule waits for a nap that another one only ever cancels. -/
def sleeplessConfig : RawConfig where
  system := .default
  adapters := .single "bus" ⟨"virtual",.mapping []⟩
  devices := .single "lamp" ⟨"bus",none,none,["switch"],.empty,none,none,none⟩
  scenes := .empty
  schedules := .empty
  rules := .pair (show "disarm" < "ring" by decide)
    { trigger := .mapping [(.string "changed",.mapping [(.string "device",.string "lamp"),
        (.string "capability",.string "switch"),(.string "to",.bool true)])]
      condition := none
      forDuration := none
      commands := [.mapping [(.string "cancel_timer",.string "nap")]] }
    { trigger := .mapping [(.string "timer",.string "nap")]
      condition := none
      forDuration := none
      commands := [.mapping [(.string "turn_off",.string "lamp")]] }

/-- The lamp goes on and the nap is cancelled; nothing rings. -/
theorem nap_never_rings : ∃ cfg e₀ c r,
    resolve plainLibraries .identity sleeplessConfig = .ok cfg ∧
      Resolve.danglingTimer "nap" ∈ cfg.warnings ∧ buildEngineFull partyBuilders cfg = some e₀ ∧
      Run .identity .timerless ⟨e₀,.wired⟩ c ∧ r ∈ cfg.rules ∧ r.trigger = .timer ⟨"nap"⟩ ∧
      c.engine.marks = [.considered ⟨0⟩ .true true,.firing ⟨0⟩] ∧
      ∀ t truth fired, (t,Entry.notice (.ruleConsidered r.id truth fired)) ∉ c.engine.trace := by
  obtain ⟨cfg,e₀,h,hd,hb,hq,r,hr,hw,e₁,h₁,hm⟩ : ∃ cfg e₀,
      resolve plainLibraries .identity sleeplessConfig = .ok cfg ∧
        Resolve.danglingTimer "nap" ∈ cfg.warnings ∧ buildEngineFull partyBuilders cfg = some e₀ ∧
        e₀.queue = [] ∧ ∃ r, r ∈ cfg.rules ∧ r.trigger = .timer ⟨"nap"⟩ ∧
        ∃ e₁, e₀.inject .identity 3 (.stateReported ⟨0⟩ (.switch true)) = .ok e₁ ∧
          e₁.marks = [.considered ⟨0⟩ .true true,.firing ⟨0⟩] :=
    ⟨_,_,rfl,by decide,rfl,rfl,_,List.mem_cons_of_mem _ (List.mem_singleton_self _),rfl,_,rfl,
      by decide⟩
  have may : (Event.stateReported ⟨0⟩ (.switch true)).isTimerElapsed = false := rfl
  obtain ⟨run,-⟩ := inject_run .timerless .wired may hq (by decide) h₁
  exact ⟨cfg,e₀,_,r,h,hd,hb,run,hr,hw,hm,(dead_timers_never_ring h hd hb run hr hw).2⟩

end Domiform
