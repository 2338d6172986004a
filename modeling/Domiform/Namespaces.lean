import Domiform.Bindings
import Domiform.Compile.Keys
import Domiform.Waiting

/-! Timer namespaces. The engine's own timers and those of rules and scenes share one scheduler and
one event. The key prefixes are reserved in name only: what keeps the two apart is that no config
uses them. -/
namespace Domiform
open Library Relation

/-- The key belongs to a timer the engine keeps for itself. -/
def Timers.Internal (t : Timers) (key : TimerKey) : Prop :=
  (t.retries.lookup key).isSome ∨ ∃ rule, t.pendingFor.lookup rule = some ⟨key⟩

/-- The engine's own timers are the same before and after. -/
structure Timers.Untouched (before after : Timers) : Prop where
  retries : after.retries = before.retries
  pendingFor : after.pendingFor = before.pendingFor
  pending : ∀ key, before.Internal key →
    after.scheduler.pending.lookup key = before.scheduler.pending.lookup key

namespace Engine
variable {A N : Type}

/-- No timer command of a rule or a scene ever touched the engine's own timers. -/
def Isolated (e : Engine A N) : Prop :=
  ∀ t cmd before after, (t,Entry.timed cmd before after) ∈ e.trace → before.Untouched after

/-- Every timer command of a rule or a scene stayed out of the engine's namespaces. -/
def TimedApart (e : Engine A N) : Prop :=
  ∀ t cmd before after, (t,Entry.timed cmd before after) ∈ e.trace → cmd.Apart

variable {e e' : Engine A N}

/-- A command that stays apart touches none of the numbered keys. -/
theorem Keyed.untouched (h : e.Keyed) {cmd : Command} (apart : cmd.Apart) :
    e.timers.Untouched (e.schedule cmd).timers := by
  refine ⟨rfl,rfl,fun key hk => ?_⟩
  have own : Own key := by
    rcases hk with hk | ⟨rule,hk⟩
    · obtain ⟨p,hp⟩ := Option.isSome_iff_exists.mp hk
      obtain ⟨⟨n,-,rfl⟩,-⟩ := h.retrying key p hp
      exact .retrying n
    · obtain ⟨n,-,hn⟩ := h.waiting rule _ hk
      rw [show key = forKey (n+1) from hn]
      exact .waiting n
  exact e.schedule_dueAt apart.avoids own

/-- Handling an outcome is no timer command. -/
theorem handleOutcome_timed (outcome : DispatchOutcome) (cmd : Command) (attempt serial depth : ℕ)
    {t : Millis} {c : Command} {before after : Timers} :
    (t,Entry.timed c before after) ∈ (e.handleOutcome outcome cmd attempt serial depth).trace ↔
      (t,Entry.timed c before after) ∈ e.trace := by
  cases outcome with
  | ok evs => exact .rfl
  | transient reason =>
    simp only [handleOutcome]
    split_ifs <;> simp [scheduleRetry,giveUp,notify,record,schedule,enqueue]
  | permanent reason => simp [handleOutcome,giveUp,notify,record,enqueue]

variable [Adapter A]

theorem dispatchDevice_timed {cmd : Command} {attempt depth : ℕ} {origin : Option ℕ}
    (h : dispatchDevice cmd attempt origin depth e = .ok e') {t : Millis} {c : Command}
    {before after : Timers} :
    (t,Entry.timed c before after) ∈ e'.trace ↔ (t,Entry.timed c before after) ∈ e.trace := by
  have hi : (t,Entry.timed c before after) ∈ (e.issue cmd origin).2.trace ↔
      (t,Entry.timed c before after) ∈ e.trace := by
    cases origin <;> simp [issue,record]
  have hr := dispatchDevice_routed h
  generalize (e.issue cmd origin).2 = e₁ at hr hi
  rw [← hi]
  cases hr with
  | bound idx outcome adapters hb ho =>
    rw [handleOutcome_timed]
    simp [record]
  | unbound hb => exact handleOutcome_timed _ cmd attempt _ depth

variable [NorthboundAdapter N] {user : Command → Prop} {again : TimerKey → Prop}

/-- A move writes at most one timer command down, one that meets `user`. -/
theorem Move.timed (keyed : e.Keyed) (hm : Move user again e e') {t : Millis} {cmd : Command}
    {before after : Timers} (h : (t,Entry.timed cmd before after) ∈ e'.trace) :
    (t,Entry.timed cmd before after) ∈ e.trace ∨ cmd.isTimer = true ∧ user cmd ∧
      before = e.timers ∧ after = (e.schedule cmd).timers := by
  cases hm with
  | notice n | firing rule => exact .inl (by simpa [notify,record] using h)
  | fold ev =>
    refine .inl ?_
    cases ev <;> simpa [foldState,fanStateFolded,notify,record] using h
  | refan device kind =>
    refine .inl ?_
    rw [Engine.refan] at h
    split at h
    · simpa [fanStateFolded,notify,record] using h
    · exact h
  | cancel rule =>
    refine .inl ?_
    rw [cancelForTimer] at h
    split at h <;> exact h
  | arm rule delay =>
    refine .inl ?_
    rw [armForTimer] at h
    cases hl : e.pendingFor.lookup rule <;> (rw [hl] at h; exact h)
  | elapse rule => exact .inl h
  | timer c ht hu =>
    have h' : (t,Entry.timed cmd before after) ∈ e.trace ∨
        t = e.now ∧ cmd = c ∧ before = e.timers ∧ after = (e.schedule c).timers := by
      simpa [scheduleCommand,record,schedule] using h
    rcases h' with h' | ⟨-,rfl,hb,ha⟩
    · exact .inl h'
    · exact .inr ⟨ht,hu,hb,ha⟩
  | device c depth target e' hd => exact .inl ((dispatchDevice_timed hd).mp h)
  | retry fuel key p may pending e' hd =>
    refine .inl ?_
    cases fuel with
    | zero => cases hd
    | succ fuel =>
      rw [dispatchAt_device (keyed.retrying key p pending).2] at hd
      have := (dispatchDevice_timed hd).mp h
      simpa [notify,record] using this

theorem moves_isolated (hm : Moves Command.Apart again e e') (keyed : e.Keyed) (hi : e.Isolated)
    (ha : e.TimedApart) : e'.Isolated ∧ e'.TimedApart := by
  have inv : e'.Keyed ∧ e'.Isolated ∧ e'.TimedApart := by
    induction hm with
    | refl => exact ⟨keyed,hi,ha⟩
    | @tail e₁ e₂ _ hm ih =>
      obtain ⟨hk,hi,ha⟩ := ih
      refine ⟨hk.move hm,fun t cmd before after hx => ?_,fun t cmd before after hx => ?_⟩
      · rcases hm.timed hk hx with hx | ⟨-,hu,rfl,rfl⟩
        · exact hi t cmd before after hx
        · exact hk.untouched hu
      · rcases hm.timed hk hx with hx | ⟨-,hu,-,-⟩
        · exact ha t cmd before after hx
        · exact hu
  exact inv.2

end Engine

variable {A N : Type} [Adapter A] [NorthboundAdapter N] {π : HashOrder} {host : Host N}
  {c c' : Config A N}

theorem Step.isolated (step : Step π host c c') (keyed : c.engine.Keyed)
    (apart : c.engine.CommandsIn Command.Apart) (hi : c.engine.Isolated) (ha : c.engine.TimedApart) :
    c'.engine.Isolated ∧ c'.engine.TimedApart := by
  cases step with
  | @process e e' p ev depth rest fuel next hp =>
    have hk : ({ e with queue := rest } : Engine A N).Keyed := keyed.of_eq rfl rfl rfl rfl
    exact Engine.moves_isolated (apart.moves (fun _ => .of_not_timer) hp) hk hi ha
  | start | advance =>
    refine ⟨fun t cmd before after hx => hi t cmd before after ?_,
      fun t cmd before after hx => ha t cmd before after ?_⟩ <;> simpa using hx
  | _ => exact ⟨hi,ha⟩

/-- The expiry of a key outside the namespaces reaches every rule that waits for it. -/
theorem Engine.timer_considered {fuel depth : ℕ} {key : TimerKey} {e e' : Engine A N}
    (keyed : e.Keyed) (le : depth ≤ e.maxCascadeDepth)
    (apart : key.startsWith forKeyPrefix = false ∧ ∀ n, key ≠ Engine.retryKey (n+1))
    (h : e.process π fuel (.timerElapsed key) depth = .ok e') {r : Rule} (hr : r ∈ e.rules)
    (hm : r.trigger.matchesEvent (.timerElapsed key) none = true) :
    ∃ seen truth fired, e'.trace = e.trace ++ seen ∧
      (e.now,Entry.notice (.ruleConsidered r.id truth fired)) ∈ seen := by
  have hfresh : e.retries.lookup key = none := by
    cases hl : e.retries.lookup key with
    | none => rfl
    | some p =>
      obtain ⟨⟨n,-,hn⟩,-⟩ := keyed.retrying key p hl
      exact absurd hn (apart.2 n)
  have hreact : react π fuel (.timerElapsed key) depth (e.received (.timerElapsed key) depth) =
      .ok e' := by
    have hfresh' : (e.notify (.eventReceived (.timerElapsed key) depth)).retries.lookup key = none :=
      hfresh
    rw [process,if_neg (not_lt.mpr le)] at h
    dsimp only at h
    rw [hfresh'] at h
    dsimp only at h
    rw [apart.1] at h
    exact h
  obtain ⟨seen,ht,hmem⟩ := considered_of_react hreact hr hm
  refine ⟨(e.now,.notice (.eventReceived (.timerElapsed key) depth)) :: seen,_,_,?_,
    List.mem_cons_of_mem _ hmem⟩
  rw [ht,received,notify_trace,List.append_assoc]
  rfl

/-- In every run of an accepted config that stays out of the namespaces, no timer command of a rule
or a scene touches a pending timer of the engine, and whenever a key that one of them scheduled
elapses, every rule that waits for it is considered. -/
theorem timer_namespaces_are_apart {b : Builders A N} {lib : Libraries} {raw : RawConfig}
    {cfg : CompiledConfig} (accepted : resolve lib π raw = .ok cfg) {e₀ : Engine A N}
    (built : buildEngineFull b cfg = some e₀) (apart : raw.KeysApart) {p : Phase}
    (run : Run π host ⟨e₀,p⟩ c) :
    c.engine.Isolated ∧ ∀ t key delay before after,
      (t,Entry.timed (.scheduleTimer key delay) before after) ∈ c.engine.trace →
        ∀ fuel depth rest e', c.engine.queue = (.timerElapsed key,depth) :: rest →
          depth ≤ c.engine.maxCascadeDepth →
          { c.engine with queue := rest }.process π fuel (.timerElapsed key) depth = .ok e' →
          ∀ r ∈ c.engine.rules, r.trigger.matchesEvent (.timerElapsed key) none = true →
            ∃ seen truth fired, e'.trace = c.engine.trace ++ seen ∧
              (c.engine.now,Entry.notice (.ruleConsidered r.id truth fired)) ∈ seen := by
  have hb := built_of_accepted accepted built
  have ha := hb.commandsApart accepted apart
  have inv : c.engine.Keyed ∧ c.engine.Isolated ∧ c.engine.TimedApart := by
    have hk := run.keyed hb.fresh
    refine ⟨hk,?_⟩
    induction run with
    | refl => exact ⟨by simp [Engine.Isolated,hb.fresh.trace],by simp [Engine.TimedApart,hb.fresh.trace]⟩
    | @tail c₁ c₂ run step ih =>
      have hk₁ := Run.keyed hb.fresh run
      obtain ⟨hi,ht⟩ := ih hk₁
      exact step.isolated hk₁ (ha.of_wiring (Run.wiring run)) hi ht
  refine ⟨inv.2.1,fun t key delay before after hx fuel depth rest e' next le hp r hr hm => ?_⟩
  have hk : ({ c.engine with queue := rest } : Engine A N).Keyed := inv.1.of_eq rfl rfl rfl rfl
  exact Engine.timer_considered hk le (inv.2.2 t _ before after hx) hp hr hm

/-- When the lamp goes on a timer is scheduled, and when that elapses the lamp is turned off. -/
def napConfig (key : String) : RawConfig where
  system := .default
  adapters := .single "bus" ⟨"virtual",.mapping []⟩
  devices := .single "lamp" ⟨"bus",none,none,["switch"],.empty,none,none,none⟩
  scenes := .empty
  schedules := .empty
  rules := .pair (show "arm" < "ring" by decide)
    { trigger := .mapping [(.string "changed",.mapping [(.string "device",.string "lamp"),
        (.string "capability",.string "switch"),(.string "to",.bool true)])]
      condition := none
      forDuration := none
      commands := [.mapping [(.string "schedule_timer",
        .mapping [(.string "key",.string key),(.string "after",.string "1s")])]] }
    { trigger := .mapping [(.string "timer",.string key)]
      condition := none
      forDuration := none
      commands := [.mapping [(.string "turn_off",.string "lamp")]] }

theorem nap_keysApart : (napConfig "nap").KeysApart := by
  have hl : (napConfig "nap").lines = [.mapping [(.string "schedule_timer",
      .mapping [(.string "key",.string "nap"),(.string "after",.string "1s")])],
    .mapping [(.string "turn_off",.string "lamp")]] := rfl
  have hs : ∀ v ∈ (napConfig "nap").lines, ∀ key, v.scheduledKey = some key → key = "nap" := by
    rw [hl]
    intro v hv key hk
    simp only [List.mem_cons,List.not_mem_nil,or_false] at hv
    rcases hv with rfl | rfl
    · exact (Option.some.inj hk).symm
    · cases hk
  refine ⟨fun v hv key hk => ?_,fun v hv key hk => ?_⟩
  · rw [hs v hv key hk]
    refine ⟨by decide,fun n hn => ?_⟩
    have hp := Engine.retryKey_startsWith (n+1)
    rw [← hn] at hp
    exact absurd hp (by decide)
  · rw [hl] at hv
    simp only [List.mem_cons,List.not_mem_nil,or_false] at hv
    rcases hv with rfl | rfl <;> cases hk

theorem nap_stays_apart : ∃ cfg e₀ c, resolve plainLibraries .identity (napConfig "nap") = .ok cfg ∧
    buildEngineFull plainBuilders cfg = some e₀ ∧ Run .identity .any ⟨e₀,.wired⟩ c ∧
    (c.engine.trace.any fun x =>
      match x.2 with
      | .timed _ _ _ => true
      | _ => false) = true ∧ c.engine.Isolated := by
  obtain ⟨cfg,e₀,h,hb,hq,e₁,h₁,e₂,h₂,ht⟩ : ∃ cfg e₀,
      resolve plainLibraries .identity (napConfig "nap") = .ok cfg ∧
        buildEngineFull plainBuilders cfg = some e₀ ∧ e₀.queue = [] ∧
        ∃ e₁, e₀.inject .identity 3 (.stateReported ⟨0⟩ (.switch true)) = .ok e₁ ∧
        ∃ e₂, e₁.advance .identity 4 1000 = .ok e₂ ∧ (e₂.trace.any fun x =>
          match x.2 with
          | .timed _ _ _ => true
          | _ => false) = true :=
    ⟨_,_,rfl,rfl,rfl,_,rfl,_,rfl,by decide⟩
  obtain ⟨run₁,q₁⟩ := inject_run .any .wired trivial hq (by decide) h₁
  obtain ⟨run₂,-⟩ := advance_run .any .wired q₁ (by decide) h₂
  have run := run₁.trans run₂
  exact ⟨cfg,e₀,_,h,hb,run,ht,(timer_namespaces_are_apart h hb nap_keysApart run).1⟩

def Entry.schedules (key : TimerKey) : Entry → Bool
  | .timed (.scheduleTimer k _) _ _ => k == key
  | _ => false

def Entry.receives (ev : Event) : Entry → Bool
  | .notice (.eventReceived ev' _) => ev' == ev
  | _ => false

def Entry.considers (id : RuleId) : Entry → Bool
  | .notice (.ruleConsidered rule _ _) => rule == id
  | _ => false

/-- A key under the prefix of the `for:` timers is accepted, and its expiry is swallowed: no rule is
ever considered for it. -/
theorem for_nap_is_swallowed : ∃ cfg e₀ c r,
    resolve plainLibraries .identity (napConfig "__for:nap") = .ok cfg ∧
      buildEngineFull plainBuilders cfg = some e₀ ∧ Run .identity .any ⟨e₀,.wired⟩ c ∧
      c.engine.queue = [] ∧ r ∈ c.engine.rules ∧
      r.trigger.matchesEvent (.timerElapsed ⟨"__for:nap"⟩) none = true ∧
      (c.engine.trace.any fun x => x.2.schedules ⟨"__for:nap"⟩) = true ∧
      (c.engine.trace.any fun x => x.2.receives (.timerElapsed ⟨"__for:nap"⟩)) = true ∧
      ∀ t truth fired, (t,Entry.notice (.ruleConsidered r.id truth fired)) ∉ c.engine.trace := by
  obtain ⟨cfg,e₀,h,hb,hq,e₁,h₁,e₂,h₂,r,hr,hm,hs,he,hn⟩ : ∃ cfg e₀,
      resolve plainLibraries .identity (napConfig "__for:nap") = .ok cfg ∧
        buildEngineFull plainBuilders cfg = some e₀ ∧ e₀.queue = [] ∧
        ∃ e₁, e₀.inject .identity 3 (.stateReported ⟨0⟩ (.switch true)) = .ok e₁ ∧
        ∃ e₂, e₁.advance .identity 4 1000 = .ok e₂ ∧
        ∃ r, r ∈ e₂.rules ∧ r.trigger.matchesEvent (.timerElapsed ⟨"__for:nap"⟩) none = true ∧
          (e₂.trace.any fun x => x.2.schedules ⟨"__for:nap"⟩) = true ∧
          (e₂.trace.any fun x => x.2.receives (.timerElapsed ⟨"__for:nap"⟩)) = true ∧
          (e₂.trace.any fun x => x.2.considers r.id) = false :=
    ⟨_,_,rfl,rfl,rfl,_,rfl,_,rfl,_,List.mem_cons_of_mem _ (List.mem_singleton_self _),by decide,
      by decide,by decide,by decide⟩
  obtain ⟨run₁,q₁⟩ := inject_run .any .wired trivial hq (by decide) h₁
  obtain ⟨run₂,q₂⟩ := advance_run .any .wired q₁ (by decide) h₂
  refine ⟨cfg,e₀,_,r,h,hb,run₁.trans run₂,q₂,hr,hm,hs,he,fun t truth fired hx => ?_⟩
  have := List.any_eq_false.mp hn _ hx
  simp [Entry.considers] at this

end Domiform
