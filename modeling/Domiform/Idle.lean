import Domiform.Compile.Lints
import Domiform.Engine.Marks
import Domiform.Ranges

/-! Idle scenes and schedules at run time. What the compiler says nothing uses is left alone by every
run: such a scene is only ever activated from outside, and such a schedule changes nothing. -/
namespace Domiform
open Library Relation

/-- What an entry of the history says about a scene. -/
inductive SceneMark
  | requested
  | activated
  | expanded
  deriving DecidableEq

def Entry.sceneMark (scene : SceneId) : Entry → Option SceneMark
  | .notice (.eventReceived (.requestedScene s) _) => if s = scene then some .requested else none
  | .notice (.commandDispatched (.activateScene s) _) => if s = scene then some .activated else none
  | .notice (.sceneExpanded s _) => if s = scene then some .expanded else none
  | _ => none

namespace Engine
variable {A N : Type}

def sceneMarks (e : Engine A N) (scene : SceneId) : List SceneMark :=
  e.trace.filterMap fun x => x.2.sceneMark scene

/-- The scene went unmarked from one engine to the next. -/
def Untold (scene : SceneId) (e e' : Engine A N) : Prop := e'.sceneMarks scene = e.sceneMarks scene

theorem sceneMarks_record (e : Engine A N) (x : Entry) (scene : SceneId) :
    (e.record x).sceneMarks scene = e.sceneMarks scene ++ (x.sceneMark scene).toList := by
  rw [sceneMarks,record,List.filterMap_append]
  cases hx : x.sceneMark scene <;> simp [sceneMarks,hx]

namespace Untold
variable {scene : SceneId} {e e' e'' : Engine A N}

theorem of_eq (h : e'.trace = e.trace) : Untold scene e e' := by
  rw [Untold,sceneMarks,h,sceneMarks]

theorem refl (e : Engine A N) : Untold scene e e := rfl

theorem trans (h : Untold scene e e') (h' : Untold scene e' e'') : Untold scene e e'' :=
  Eq.trans h' h

theorem of_record (e : Engine A N) {x : Entry} (h : x.sceneMark scene = none) :
    Untold scene e (e.record x) := by
  rw [Untold,sceneMarks_record,h]
  exact List.append_nil _

theorem of_foldl {α : Type} {f : Engine A N → α → Engine A N} (hf : ∀ e a, Untold scene e (f e a))
    (xs : List α) (e : Engine A N) : Untold scene e (xs.foldl f e) := by
  induction xs generalizing e with
  | nil => exact refl e
  | cons a xs ih => exact (hf e a).trans (ih (f e a))

theorem of_scheduleCommand (e : Engine A N) (cmd : Command) :
    Untold scene e (e.scheduleCommand cmd) := by
  have planned : Untold scene e (e.schedule cmd) := of_eq rfl
  exact planned.trans (of_record _ rfl)

theorem of_handleOutcome (e : Engine A N) (outcome : DispatchOutcome) (cmd : Command)
    (attempt serial depth : ℕ) :
    Untold scene e (e.handleOutcome outcome cmd attempt serial depth) := by
  have gaveUp (e : Engine A N) (reason : String) :
      Untold scene e (e.giveUp cmd reason attempt serial depth) :=
    (of_record e (x := .notice (.commandFailed cmd reason attempt)) rfl).trans
      ((of_record _ (x := .gaveUp serial) rfl).trans (of_eq rfl))
  have retried (e : Engine A N) : Untold scene e (e.scheduleRetry cmd attempt serial) := by
    have counted : Untold scene e { e with retryCounter := e.retryCounter+1 } := of_eq rfl
    exact counted.trans ((of_record _
      (x := .notice (.retryScheduled cmd (attempt+1) (e.retry.backoff attempt))) rfl).trans
        (of_eq rfl))
  cases outcome with
  | ok evs => exact of_eq rfl
  | transient reason =>
    simp only [handleOutcome]
    split_ifs
    · exact (of_record e rfl).trans (retried _)
    · exact (of_record e rfl).trans (gaveUp _ reason)
  | permanent reason => exact (of_record e rfl).trans (gaveUp _ reason)

theorem of_armForTimer (e : Engine A N) (rule : RuleId) (after : Millis) :
    Untold scene e (e.armForTimer rule after) := of_eq (armForTimer_trace e rule after)

theorem of_cancelForTimer (e : Engine A N) (rule : RuleId) :
    Untold scene e (e.cancelForTimer rule) := of_eq (cancelForTimer_trace e rule)

section Dispatching
variable [Adapter A]

theorem of_dispatchDevice {cmd : Command} {attempt depth : ℕ} {origin : Option ℕ}
    (h : dispatchDevice cmd attempt origin depth e = .ok e') : Untold scene e e' := by
  have issued : Untold scene e (e.issue cmd origin).2 := by
    cases origin with
    | some serial => exact refl e
    | none => exact of_record { e with serials := e.serials+1 } rfl
  cases dispatchDevice_routed h with
  | bound idx outcome adapters =>
    have handed : Untold scene (e.issue cmd origin).2
        ((e.issue cmd origin).2.handOver idx cmd adapters) := of_eq rfl
    exact ((issued.trans handed).trans (of_record _ rfl)).trans (of_handleOutcome _ _ _ _ _ _)
  | unbound => exact issued.trans (of_handleOutcome _ _ _ _ _ _)

/-- Commands that are dispatched one after the other, each without a mark. -/
theorem of_members {fuel depth : ℕ} {cmds : List Command} (start : Untold scene e e')
    (idle : e'.ScenesIn (· ≠ .activateScene scene))
    (members : ∀ c ∈ cmds, ∀ b b' : Engine A N, b.ScenesIn (· ≠ .activateScene scene) →
      dispatchAt fuel c 1 none depth b = .ok b' → Untold scene b b')
    (h : cmds.foldlM (fun e c => dispatchAt fuel c 1 none depth e) e' = .ok e'') :
    Untold scene e e'' := by
  have all : Untold scene e e'' ∧ e''.ScenesIn (· ≠ .activateScene scene) := by
    refine foldlM_ok_induct
      (I := fun b => Untold scene e b ∧ b.ScenesIn (· ≠ .activateScene scene)) ?_ ⟨start,idle⟩ h
    intro c hc b b' hb hd
    exact ⟨hb.1.trans (members c hc b b' hb.2 hd),hb.2.of_frame (dispatchAt_frame hd)⟩
  exact all.1

/-- A dispatch marks only the scenes that its commands activate. -/
theorem of_dispatchAt {fuel attempt depth : ℕ} {cmd : Command} {origin : Option ℕ}
    (other : cmd ≠ .activateScene scene) (idle : e.ScenesIn (· ≠ .activateScene scene))
    (h : dispatchAt fuel cmd attempt origin depth e = .ok e') : Untold scene e e' := by
  induction fuel generalizing cmd attempt origin e e' with
  | zero => cases h
  | succ fuel ih =>
    by_cases ht : cmd.targetDevice.isSome
    · rw [dispatchAt_device ht] at h
      rw [← resolveImplicitStateCommand_targetDevice e] at ht
      refine (of_record e ?_).trans (of_dispatchDevice h)
      generalize e.resolveImplicitStateCommand cmd = c at ht
      cases c <;> first | rfl | cases ht
    · have hr := e.resolveImplicitStateCommand_of_untargeted
        (by simpa using ht : cmd.targetDevice = none)
      rw [dispatchAt,hr] at h
      cases cmd with
      | activateScene s =>
        have hs : s ≠ scene := fun he => other (congrArg Command.activateScene he)
        have told : Untold scene e (e.notify (.commandDispatched (.activateScene s) depth)) :=
          of_record e (by simp [Entry.sceneMark,hs])
        dsimp only at h
        split at h
        · rename_i cmds hl
          have expanded := told.trans (of_record _ (x := .notice (.sceneExpanded s cmds.length))
            (by simp [Entry.sceneMark,hs]))
          exact of_members expanded idle (fun c hc b b' hb hd => ih (idle s cmds hl c hc) hb hd) h
        · cases h
          exact told
      | scheduleTimer | cancelTimer =>
        cases h
        exact (of_record e rfl).trans (of_scheduleCommand _ _)
      | _ => simp [Command.targetDevice] at ht

theorem of_fire {fuel depth : ℕ} {rule : Rule} (other : ∀ c ∈ rule.commands, c ≠ .activateScene scene)
    (idle : e.ScenesIn (· ≠ .activateScene scene)) (h : fire fuel rule depth e = .ok e') :
    Untold scene e e' := by
  have start : Untold scene e (e.record (.firing rule.id e.state)) := of_record e rfl
  exact of_members start idle (fun c hc _ _ hb hd => of_dispatchAt (other c hc) hb hd) h

variable [NorthboundAdapter N]

omit [Adapter A] in
theorem of_refan (e : Engine A N) (device : DeviceId) (kind : CapabilityKind) :
    Untold scene e (e.refan device kind) := by
  unfold refan
  split
  · exact of_record e rfl
  · exact refl e

omit [Adapter A] in
theorem of_foldState (e : Engine A N) (ev : Event) : Untold scene e (e.foldState ev) := by
  cases ev with
  | stateReported device state => exact of_record e rfl
  | _ => exact refl e

theorem of_react {π : HashOrder} {fuel depth : ℕ} {ev : Event}
    (idle : e.CommandsIn (· ≠ .activateScene scene)) (h : react π fuel ev depth e = .ok e') :
    Untold scene e e' := by
  obtain ⟨e₂,h₂,hfired,h⟩ := react_cases h
  have hf : Untold scene e e₂ := by
    rcases h₂ with rfl | rfl
    · exact of_foldState e ev
    · exact (of_foldState e ev).trans (of_foldl of_cancelForTimer _ _)
  have hi : Internal (fun _ => True) depth (e.foldState ev) e₂ := .of_reverted h₂
  have considered : Untold scene e₂ (e₂.considerRules ev (e.prior ev)).1 :=
    of_foldl (fun e _ => of_record e rfl) _ _
  have scenes : (e₂.considerRules ev (e.prior ev)).1.scenes = e.scenes := by
    have hc : Internal (fun _ => True) depth e₂ (e₂.considerRules ev (e.prior ev)).1 :=
      .of_considerRules e₂ ev _
    exact (hc.scenes.trans hi.scenes).trans (by cases ev <;> rfl)
  have all : Untold scene e e' ∧ e'.scenes = e.scenes := by
    refine runFired_induct (I := fun b => Untold scene e b ∧ b.scenes = e.scenes)
      (fun r _ after _ b hb => ?_) (fun r hr _ b b' hb hfire => ?_) h ⟨hf.trans considered,scenes⟩
    · have ha : Internal (fun _ => True) depth b (b.armForTimer r.id after) :=
        .of_armForTimer b r.id after
      exact ⟨hb.1.trans (of_armForTimer b r.id after),ha.scenes.trans hb.2⟩
    · have hm : r ∈ e.rules := ((hfired r).mp hr).1
      have idle' : b.ScenesIn (· ≠ .activateScene scene) := by
        rw [ScenesIn,hb.2]
        exact idle.scenes
      exact ⟨hb.1.trans (of_fire (idle.rules r hm) idle' hfire),(fire_scenes hfire).trans hb.2⟩
  exact all.1

omit [NorthboundAdapter N] in
theorem of_fireElapsedFor {π : HashOrder} {fuel : ℕ} {key : TimerKey}
    (idle : e.CommandsIn (· ≠ .activateScene scene)) (h : fireElapsedFor π fuel key e = .ok e') :
    Untold scene e e' := by
  obtain rfl | ⟨id,-,h⟩ := fireElapsedFor_cases h
  · exact refl _
  have erased : Untold scene e { e with pendingFor := e.pendingFor.erase id } := of_eq rfl
  obtain rfl | ⟨rule,-,found,-,h⟩ := h
  · exact erased
  · exact erased.trans (of_fire (idle.rules rule (List.mem_of_find?_eq_some found)) idle.scenes h)

/-- Handling an event marks a scene that no command activates only if the event asks for it. -/
theorem of_processed {π : HashOrder} {fuel depth : ℕ} {ev : Event} (keyed : e.Keyed)
    (idle : e.CommandsIn (· ≠ .activateScene scene)) (other : ev ≠ .requestedScene scene)
    (h : Processed π fuel depth e ev e') : Untold scene e e' := by
  have received : Untold scene e (e.received ev depth) := by
    refine of_record e ?_
    cases ev with
    | requestedScene s =>
      have hs : s ≠ scene := fun he => other (congrArg Event.requestedScene he)
      simp [Entry.sceneMark,hs]
    | _ => rfl
  cases h with
  | dropped => exact of_record e rfl
  | retried key p e' le pending h =>
    have keyed₁ : (e.received (.timerElapsed key) depth).Keyed := keyed.of_eq rfl rfl rfl rfl
    obtain ⟨cmd,target,-,hd⟩ := retry_dispatched keyed₁ pending h
    have erased : Untold scene (e.received (.timerElapsed key) depth)
        { e.received (.timerElapsed key) depth with retries := e.retries.erase key } := of_eq rfl
    refine ((received.trans erased).trans (of_record _ ?_)).trans (of_dispatchDevice hd)
    cases cmd <;> first | rfl | cases target
  | elapsed key e' le fresh own h =>
    exact received.trans (of_fireElapsedFor (idle.of_wiring ⟨rfl,rfl,rfl,rfl,rfl,rfl⟩) h)
  | changed device desired e' le h =>
    simp only [requestChange] at h
    split at h
    · rename_i cmd hc
      obtain ⟨e₁,h₁,h₂⟩ := bind_ok_iff.mp h
      cases h₂
      refine (received.trans (of_dispatchAt ?_ idle.scenes h₁)).trans (of_refan e₁ device _)
      rintro rfl
      cases desired with
      | set state => cases state <;> cases hc
      | adjustBrightness delta =>
        simp only [commandForRequestedChange] at hc
        split_ifs at hc <;> cases hc
      | _ => cases hc
    · cases h
      exact received.trans (of_refan _ device _)
  | activated s e' le h =>
    have hs : Command.activateScene s ≠ .activateScene scene := fun he =>
      other (congrArg Event.requestedScene (Command.activateScene.inj he))
    exact received.trans (of_dispatchAt hs idle.scenes h)
  | reacted ev e' le ordinary report h =>
    exact received.trans (of_react (idle.of_wiring ⟨rfl,rfl,rfl,rfl,rfl,rfl⟩) h)

end Dispatching
end Untold

variable [Adapter A] [NorthboundAdapter N]

/-- A request for the scene activates it once. -/
theorem sceneMarks_of_requested {π : HashOrder} {fuel depth : ℕ} {scene : SceneId} {e e' : Engine A N}
    (idle : e.CommandsIn (· ≠ .activateScene scene)) (known : (e.scenes.lookup scene).isSome)
    (h : Processed π fuel depth e (.requestedScene scene) e') :
    e'.sceneMarks scene = e.sceneMarks scene ∨
      e'.sceneMarks scene = e.sceneMarks scene ++ [.requested,.activated,.expanded] := by
  cases h with
  | dropped => exact .inl (Untold.of_record e rfl)
  | reacted _ e' le ordinary report h => cases report
  | activated s e' le h =>
    right
    obtain ⟨cmds,hl⟩ := Option.isSome_iff_exists.mp known
    cases fuel with
    | zero => cases h
    | succ fuel =>
      rw [dispatchAt,resolveImplicitStateCommand_of_untargeted _ rfl] at h
      have hl' : ((e.received (.requestedScene scene) depth).notify
          (.commandDispatched (.activateScene scene) depth)).scenes.lookup scene = some cmds := hl
      dsimp only at h
      rw [hl'] at h
      dsimp only at h
      have members : Untold scene (((e.received (.requestedScene scene) depth).notify
          (.commandDispatched (.activateScene scene) depth)).notify
            (.sceneExpanded scene cmds.length)) e' :=
        .of_members (.refl _) idle.scenes (fun c hc b b' hb hd =>
          .of_dispatchAt (idle.scenes scene cmds hl c hc) hb hd) h
      rw [members]
      simp [notify,received,sceneMarks_record,Entry.sceneMark]

omit [Adapter A] [NorthboundAdapter N] in
theorem matched_timeReached {schedule : ScheduleId} {rules : List Rule}
    (unawaited : ∀ r ∈ rules, r.trigger ≠ .time schedule) :
    (rules.filter fun r => r.trigger.matchesEvent (.timeReached schedule) none) = [] := by
  rw [List.filter_eq_nil_iff]
  intro r hr hm
  have waits := unawaited r hr
  cases ht : r.trigger with
  | time s =>
    rw [ht] at hm waits
    have hs : s = schedule := by simpa [Trigger.matchesEvent] using hm
    exact waits (congrArg Trigger.time hs)
  | _ =>
    rw [ht] at hm
    cases hm

/-- A schedule that no rule waits for leaves nothing but the announcement. -/
theorem unheard {π : HashOrder} {fuel depth : ℕ} {schedule : ScheduleId} {e e' : Engine A N}
    (unawaited : ∀ r ∈ e.rules, r.trigger ≠ .time schedule)
    (h : Processed π fuel depth e (.timeReached schedule) e') : ∃ n, e' = e.notify n ∧
      (n = .eventReceived (.timeReached schedule) depth ∨
        n = .cascadeDropped (.timeReached schedule) depth) := by
  cases h with
  | dropped => exact ⟨_,rfl,.inr rfl⟩
  | reacted ev e' le ordinary report h =>
    refine ⟨_,?_,.inl rfl⟩
    let e₁ := e.received (.timeReached schedule) depth
    have silent : e₁.considerRules (.timeReached schedule) none = (e₁,[]) := by
      have hm : e₁.rules.filter _ = [] := matched_timeReached unawaited
      rw [considerRules,hm]
      rfl
    rw [react_eq] at h
    change runFired fuel (e₁.considerRules (.timeReached schedule) none).2 depth
      (e₁.considerRules (.timeReached schedule) none).1 = .ok e' at h
    rw [silent] at h
    cases h
    rfl

end Engine

variable {A N : Type} [Adapter A] [NorthboundAdapter N] {π : HashOrder} {host : Host N}
  {c c' : Config A N} {scene : SceneId}

/-- One step leaves such a scene unmarked, or answers a request for it. -/
theorem Step.sceneMarks (keyed : c.engine.Keyed)
    (idle : c.engine.CommandsIn (· ≠ .activateScene scene))
    (known : (c.engine.scenes.lookup scene).isSome) (step : Step π host c c') :
    c'.engine.sceneMarks scene = c.engine.sceneMarks scene ∨
      c'.engine.sceneMarks scene =
        c.engine.sceneMarks scene ++ [.requested,.activated,.expanded] := by
  cases step with
  | @start e p idle' ready =>
    exact .inl ((Engine.Untold.of_record e (x := .started) rfl).trans
      ((Engine.Untold.of_record _ (x := .ticked) rfl).trans (.of_eq rfl)))
  | @advance e p dt idle' ready =>
    have elapsed : Engine.Untold scene e (e.elapse dt) := .of_eq rfl
    exact .inl (elapsed.trans ((Engine.Untold.of_record _ (x := .ticked) rfl).trans (.of_eq rfl)))
  | synced | inject | addNorthbound => exact .inl (Engine.Untold.of_eq rfl)
  | @process e e' p ev depth rest fuel next h =>
    have hp := Engine.process_processed h
    have idle₁ : ({ e with queue := rest } : Engine A N).CommandsIn (· ≠ .activateScene scene) :=
      idle.of_wiring ⟨rfl,rfl,rfl,rfl,rfl,rfl⟩
    have keyed₁ : ({ e with queue := rest } : Engine A N).Keyed := keyed.of_eq rfl rfl rfl rfl
    by_cases hev : ev = .requestedScene scene
    · subst hev
      exact Engine.sceneMarks_of_requested (e := { e with queue := rest }) idle₁ known hp
    · exact .inl (Engine.Untold.of_processed (e := { e with queue := rest }) keyed₁ idle₁ hev hp)

/-- Over a run, such a scene is activated once for each request that is taken up, then and there. -/
theorem Run.sceneMarks {e₀ : Engine A N} {p : Phase} (fresh : e₀.Fresh)
    (idle : e₀.CommandsIn (· ≠ .activateScene scene)) (known : (e₀.scenes.lookup scene).isSome)
    (run : Run π host ⟨e₀,p⟩ c) : ∃ k, c.engine.sceneMarks scene =
      (List.replicate k [.requested,.activated,.expanded]).flatten := by
  induction run with
  | refl => exact ⟨0,by rw [Engine.sceneMarks,fresh.trace]; rfl⟩
  | @tail c₁ _ run step ih =>
    obtain ⟨k,hk⟩ := ih
    have hw := Run.wiring run
    have known' : (c₁.engine.scenes.lookup scene).isSome := by
      rw [hw.scenes]
      exact known
    rcases step.sceneMarks (Run.keyed fresh run) (idle.of_wiring hw) known' with h | h
    · exact ⟨k,h.trans hk⟩
    · refine ⟨k+1,h.trans ?_⟩
      rw [hk,List.replicate_succ',List.flatten_append]
      rfl

section Accepted
variable {b : Builders A N} {lib : Libraries} {π π' : HashOrder} {raw : RawConfig}
  {cfg : CompiledConfig} {e₀ : Engine A N}

omit [Adapter A] [NorthboundAdapter N] in
/-- The commands of the engine are those of the config. -/
theorem Built.commandsIn (h : Built b cfg e₀) (accepted : resolve lib π raw = .ok cfg)
    {user : Command → Prop} (all : ∀ c, cfg.Holds c → user c) : e₀.CommandsIn user := by
  refine ⟨?_,h.scenesIn (fun s hs c hc => all c (.inl ⟨s,hs,hc⟩)) ?_⟩
  · intro r hr c hc
    rw [h.rules] at hr
    exact all c (.inr ⟨r,hr,hc⟩)
  · rw [(resolve_eq_ok accepted).2.2.2.1]
    exact scenes_nodup lib raw

omit [Adapter A] [NorthboundAdapter N] in
theorem Built.scene_known (h : Built b cfg e₀) (accepted : resolve lib π raw = .ok cfg)
    {s : CompiledScene} (hs : s ∈ cfg.scenes) : (e₀.scenes.lookup s.id).isSome := by
  have hm := hs
  rw [(resolve_eq_ok accepted).2.2.2.1] at hm
  obtain ⟨body,hi,hc⟩ := mem_scenes.mp hm
  rw [h.scenes,(lookup_sceneTable accepted s.id s.commands).mpr ⟨s.name,body,hi,hc⟩]
  rfl

/-- The compiler warns of a scene exactly when no command activates it; in every run such a scene is
activated, and expanded, once for each request for it that is taken up, and never otherwise. It warns
of a schedule exactly when no rule waits for it; when such a schedule comes round, the event leaves
the queue, is announced, and changes nothing else. -/
theorem warnings_of_disuse_are_exact (accepted : resolve lib π raw = .ok cfg)
    (built : buildEngineFull b cfg = some e₀) {p : Phase} (run : Run π' host ⟨e₀,p⟩ c) :
    (∀ s ∈ cfg.scenes,
      (Resolve.unusedScene s.name ∈ cfg.warnings ↔ ¬cfg.Holds (.activateScene s.id)) ∧
        (Resolve.unusedScene s.name ∈ cfg.warnings → ∃ k, c.engine.sceneMarks s.id =
          (List.replicate k [.requested,.activated,.expanded]).flatten)) ∧
      ∀ s ∈ cfg.schedules,
        (Resolve.unusedSchedule s.name ∈ cfg.warnings ↔ ∀ r ∈ cfg.rules, r.trigger ≠ .time s.id) ∧
          (Resolve.unusedSchedule s.name ∈ cfg.warnings → ∀ depth rest c',
            c.engine.queue = (.timeReached s.id,depth) :: rest → Step π' host c c' →
              ∃ n, c'.engine = ({ c.engine with queue := rest } : Engine A N).notify n ∧
                (n = .eventReceived (.timeReached s.id) depth ∨
                  n = .cascadeDropped (.timeReached s.id) depth)) := by
  have hb := built_of_accepted accepted built
  constructor
  · intro s hs
    have exact := Resolve.unusedScene_mem_warnings accepted hs
    refine ⟨exact,fun unused => ?_⟩
    have idle : e₀.CommandsIn (· ≠ .activateScene s.id) :=
      hb.commandsIn accepted fun c held he => exact.mp unused (he ▸ held)
    exact run.sceneMarks hb.fresh idle (hb.scene_known accepted hs)
  · intro s hs
    have exact := Resolve.unusedSchedule_mem_warnings accepted hs
    refine ⟨exact,fun unused depth rest c' next step => ?_⟩
    obtain ⟨fuel,h⟩ := step.of_next next
    refine Engine.unheard (e := { c.engine with queue := rest }) ?_ (Engine.process_processed h)
    intro r hr
    have hr' : r ∈ c.engine.rules := hr
    rw [(Run.wiring run).rules,hb.rules] at hr'
    exact exact.mp unused r hr'

end Accepted

/-- A party that only guests may ask for, and a clock nobody listens to. -/
def idleConfig : RawConfig where
  system := .default
  adapters := .single "bus" ⟨"virtual",.mapping []⟩
  devices := .single "lamp" ⟨"bus",none,none,["switch"],.empty,none,none,none⟩
  scenes := .single "party" [.mapping [(.string "turn_on",.string "lamp")]]
  schedules := .single "noon" ⟨none,some "12:00",none,none⟩
  rules := .empty

/-- The party is asked for, and takes place once. -/
theorem party_takes_place_once : ∃ cfg e₀ c,
    resolve plainLibraries .identity idleConfig = .ok cfg ∧
      buildEngineFull partyBuilders cfg = some e₀ ∧
      Run .identity (.any : Host (RestApiAdapter ⊕ MockNorthbound)) ⟨e₀,.wired⟩ c ∧
      Resolve.unusedScene "party" ∈ cfg.warnings ∧ Resolve.unusedSchedule "noon" ∈ cfg.warnings ∧
      c.engine.sceneMarks ⟨0⟩ = [.requested,.activated,.expanded] ∧
      ∃ k, c.engine.sceneMarks ⟨0⟩ =
        (List.replicate k [.requested,.activated,.expanded]).flatten := by
  obtain ⟨cfg,e₀,h,hb,hq,hs,hw,e₁,h₁,hm⟩ : ∃ cfg e₀,
      resolve plainLibraries .identity idleConfig = .ok cfg ∧
        buildEngineFull partyBuilders cfg = some e₀ ∧ e₀.queue = [] ∧
        cfg.scenes = [⟨⟨0⟩,"party",[.setSwitch ⟨0⟩ true]⟩] ∧
        (Resolve.unusedScene "party" ∈ cfg.warnings ∧
          Resolve.unusedSchedule "noon" ∈ cfg.warnings) ∧
        ∃ e₁, e₀.inject .identity 3 (.requestedScene ⟨0⟩) = .ok e₁ ∧
          e₁.sceneMarks ⟨0⟩ = [.requested,.activated,.expanded] :=
    ⟨_,_,rfl,rfl,rfl,rfl,⟨by decide,by decide⟩,_,rfl,by decide⟩
  obtain ⟨run,-⟩ := inject_run .any .wired trivial hq (by decide) h₁
  have always := (warnings_of_disuse_are_exact h hb run).1 _ (by rw [hs]; exact List.mem_cons_self)
  exact ⟨cfg,e₀,_,h,hb,run,hw.1,hw.2,hm,always.2 hw.1⟩

end Domiform
