import Domiform.Engine.Panic
import Domiform.Replay
import Domiform.Library.Worklist

/-! Termination. Scenes end because they activate each other in a well-founded way; the queue
drains because every event it gains lies one causal hop deeper than the event that caused it, or
restarts the chain below a timer that no dispatch can produce. -/
namespace Domiform
open Library Relation

/-- `child` is activated by a member of `parent`. -/
def Activates (scenes : HashMap SceneId (List Command)) (child parent : SceneId) : Prop :=
  ∃ cmds, scenes.lookup parent = some cmds ∧ .activateScene child ∈ cmds

namespace Engine
variable {A N : Type}

/-- With enough fuel the computation ends, and where it returns the wiring is the same. -/
def Ends (e : Engine A N) (f : ℕ → Exec (Engine A N)) : Prop :=
  ∃ r, Settles f r ∧ (∀ e', r = .ok e' → e.Wiring e') ∧ ∀ err, r = .error err → err ≠ .outOfFuel

namespace Ends
variable {e e' : Engine A N} {f : ℕ → Exec (Engine A N)}

theorem ok (h : e.Wiring e') : e.Ends fun _ => .ok e' :=
  ⟨.ok e',.const _,by rintro _ ⟨⟩; exact h,by rintro _ ⟨⟩⟩

theorem of_wiring (h : e.Wiring e') (hf : e'.Ends f) : e.Ends f := by
  obtain ⟨r,hr,hw,hm⟩ := hf
  exact ⟨r,hr,fun b hb => h.trans (hw b hb),hm⟩

theorem succ {g : ℕ → Exec (Engine A N)} (hg : e.Ends g) (hf : ∀ n, f (n+1) = g n) :
    e.Ends f := by
  obtain ⟨r,hr,h⟩ := hg
  exact ⟨r,hr.succ hf,h⟩

theorem bind {g : ℕ → Engine A N → Exec (Engine A N)} (hf : e.Ends f)
    (hg : ∀ e', e.Wiring e' → e'.Ends fun n => g n e') : e.Ends fun n => f n >>= g n := by
  obtain ⟨r,hr,hw,hm⟩ := hf
  cases r with
  | error err =>
    exact ⟨.error err,hr.bind (by rintro _ ⟨⟩) (fun _ h => h),by rintro _ ⟨⟩,hm⟩
  | ok e' =>
    obtain ⟨s,hs,h⟩ := (hg e' (hw e' rfl)).of_wiring (hw e' rfl)
    exact ⟨s,hr.bind (by rintro _ ⟨⟩; exact hs) (by rintro _ ⟨⟩),h⟩

theorem foldlM {α : Type} {f : ℕ → Engine A N → α → Exec (Engine A N)} {xs : List α}
    (step : ∀ x ∈ xs, ∀ b, e.Wiring b → b.Ends fun n => f n b x) :
    e.Ends fun n => xs.foldlM (f n) e :=
  Settles.foldlM (fun x hx b hb => (step x hx b hb).of_wiring hb) (Wiring.refl e)

end Ends

/-- Scenes activate each other without cycles. -/
def ScenesEnd (e : Engine A N) : Prop := WellFounded (Activates e.scenes)

variable [Adapter A]

/-- Routing takes no fuel. -/
theorem dispatchDevice_ends (cmd : Command) (attempt : ℕ) (origin : Option ℕ) (depth : ℕ)
    (e : Engine A N) : e.Ends fun _ => dispatchDevice cmd attempt origin depth e := by
  refine ⟨_,.const _,(dispatchDevice_safe cmd attempt origin depth e).wiring,fun err h => ?_⟩
  simp only [dispatchDevice] at h
  split at h
  · split at h
    · cases h
    · cases h
      simp
  · cases h

/-- A command that is no scene ends at once. -/
theorem dispatchAt_ends_of_flat {cmd : Command} (flat : ∀ scene, cmd ≠ .activateScene scene)
    (attempt : ℕ) (origin : Option ℕ) (depth : ℕ) (e : Engine A N) :
    e.Ends fun n => dispatchAt n cmd attempt origin depth e := by
  by_cases ht : cmd.targetDevice.isSome
  · exact .succ ((dispatchDevice_ends _ attempt origin depth _).of_wiring (wiring_notify e _))
      (fun n => dispatchAt_device ht)
  · have hs : e.Wiring ((e.notify (.commandDispatched cmd depth)).scheduleCommand cmd) :=
      ⟨rfl,rfl,rfl,rfl,rfl,rfl⟩
    cases cmd with
    | activateScene scene => exact absurd rfl (flat scene)
    | scheduleTimer key after | cancelTimer key => exact .succ (.ok hs) (fun n => rfl)
    | _ => simp [Command.targetDevice] at ht

theorem activateScene_ends {scenes : HashMap SceneId (List Command)}
    (wf : WellFounded (Activates scenes)) (scene : SceneId) (attempt : ℕ) (origin : Option ℕ)
    (depth : ℕ) (e : Engine A N) (he : e.scenes = scenes) :
    e.Ends fun n => dispatchAt n (.activateScene scene) attempt origin depth e := by
  induction scene using wf.induction generalizing attempt origin e with
  | _ scene ih =>
    have hn := wiring_notify e (.commandDispatched (.activateScene scene) depth)
    cases hl : e.scenes.lookup scene with
    | none =>
      refine .succ (.ok hn) (fun n => ?_)
      simp only [dispatchAt,resolveImplicitStateCommand]
      have hl' : (e.notify (.commandDispatched (.activateScene scene) depth)).scenes.lookup scene =
        none := hl
      rw [hl']
    | some cmds =>
      -- the members run in an engine with the same scenes, each one below this scene
      let e₁ := (e.notify (.commandDispatched (.activateScene scene) depth)).notify
        (.sceneExpanded scene cmds.length)
      have h₁ : e.Wiring e₁ := ⟨rfl,rfl,rfl,rfl,rfl,rfl⟩
      have hm : e₁.Ends fun n => cmds.foldlM (fun b c => dispatchAt n c 1 none depth b) e₁ := by
        refine .foldlM fun c hc b hb => ?_
        by_cases flat : ∀ s, c ≠ .activateScene s
        · exact dispatchAt_ends_of_flat flat 1 none depth b
        · obtain ⟨child,rfl⟩ := not_forall_not.mp flat
          exact ih child ⟨cmds,he ▸ hl,hc⟩ 1 none b (hb.scenes.trans (h₁.scenes.trans he))
      refine .succ (hm.of_wiring h₁) (fun n => ?_)
      simp only [dispatchAt,resolveImplicitStateCommand]
      have hl' : (e.notify (.commandDispatched (.activateScene scene) depth)).scenes.lookup scene =
        some cmds := hl
      rw [hl']

theorem dispatchAt_ends {e : Engine A N} (wf : e.ScenesEnd) (cmd : Command) (attempt : ℕ)
    (origin : Option ℕ) (depth : ℕ) : e.Ends fun n => dispatchAt n cmd attempt origin depth e := by
  by_cases flat : ∀ s, cmd ≠ .activateScene s
  · exact dispatchAt_ends_of_flat flat attempt origin depth e
  · obtain ⟨scene,rfl⟩ := not_forall_not.mp flat
    exact activateScene_ends wf scene attempt origin depth e rfl

omit [Adapter A] in
theorem ScenesEnd.of_wiring {e e' : Engine A N} (wf : e.ScenesEnd) (h : e.Wiring e') :
    e'.ScenesEnd := by
  rwa [ScenesEnd,h.scenes]

theorem fire_ends {e : Engine A N} (wf : e.ScenesEnd) (rule : Rule) (depth : ℕ) :
    e.Ends fun n => fire n rule depth e := by
  have hr := wiring_record e (.firing rule.id e.state)
  refine .of_wiring hr (.foldlM fun c _ b hb => ?_)
  exact dispatchAt_ends ((wf.of_wiring hr).of_wiring hb) c 1 none depth

theorem fireElapsedFor_ends {e : Engine A N} (wf : e.ScenesEnd) (π : HashOrder) (key : TimerKey) :
    e.Ends fun n => fireElapsedFor π n key e := by
  obtain ⟨b,hw,h | ⟨rule,h⟩⟩ := fireElapsedFor_eq π key e
  · simp only [h]
    exact .ok hw
  · simp only [h]
    exact .of_wiring hw (fire_ends (wf.of_wiring hw) rule 0)

variable [NorthboundAdapter N]

theorem runFired_ends {e : Engine A N} (wf : e.ScenesEnd) (fired : List Rule) (depth : ℕ) :
    e.Ends fun n => runFired n fired depth e := by
  obtain ⟨b,hw,h⟩ := runFired_eq fired depth e
  simp only [h]
  exact .of_wiring hw (.foldlM fun r _ c hc => fire_ends ((wf.of_wiring hw).of_wiring hc) r depth)

theorem react_ends {e : Engine A N} (wf : e.ScenesEnd) (π : HashOrder) (ev : Event) (depth : ℕ) :
    e.Ends fun n => react π n ev depth e := by
  obtain ⟨b,fired,hw,h⟩ := react_eq_runFired π ev depth e
  simp only [h]
  exact .of_wiring hw (runFired_ends (wf.of_wiring hw) fired depth)

theorem requestChange_ends {e : Engine A N} (wf : e.ScenesEnd) (device : DeviceId)
    (desired : Desired) (depth : ℕ) : e.Ends fun n => requestChange n device desired depth e := by
  have hr (b : Engine A N) : b.Ends fun _ => .ok (b.refan device desired.kind) :=
    .ok (wiring_refan b device desired.kind)
  simp only [requestChange]
  split
  · exact (dispatchAt_ends wf _ 1 none depth).bind fun b _ => hr b
  · exact hr e

/-- Every event is processed in finite time. -/
theorem process_ends {e : Engine A N} (wf : e.ScenesEnd) (π : HashOrder) (ev : Event)
    (depth : ℕ) : e.Ends fun n => process π n ev depth e := by
  have hn := wiring_notify e (.eventReceived ev depth)
  simp only [process]
  split_ifs
  · exact .ok (wiring_notify e _)
  · refine .of_wiring hn ?_
    have hw := wf.of_wiring hn
    split
    · split
      · exact .of_wiring (wiring_eraseRetry _ _)
          (dispatchAt_ends (hw.of_wiring (wiring_eraseRetry _ _)) _ _ _ 0)
      · split_ifs
        · exact fireElapsedFor_ends hw π _
        · exact react_ends hw π _ depth
    · exact requestChange_ends hw _ _ depth
    · exact dispatchAt_ends hw _ 1 none depth
    · exact react_ends hw π _ depth

theorem nextDepth_of_le {depth bound : ℕ} (le : depth ≤ bound) (hb : bound+1 < 2^32) :
    nextDepth depth = depth+1 := by
  rw [nextDepth]
  omega

/-- How far an event can still cascade. Timers weigh most: they may start a chain at the surface,
but no dispatch brings one back. -/
def weight (bound : ℕ) (x : Event × ℕ) : ℕ :=
  if x.1.isTimerElapsed then bound+2 else bound+1-x.2

/-- Processing the first event of the queue works the queue. -/
theorem Processed.worked {π : HashOrder} {fuel depth : ℕ} {ev : Event} {e e' : Engine A N}
    (hA : Adapter.DispatchTimerless A) (hb : e.maxCascadeDepth+1 < 2^32)
    (h : Processed π fuel depth e ev e') :
    Worked (weight e.maxCascadeDepth) e'.queue ((ev,depth) :: e.queue) := by
  by_cases le : depth ≤ e.maxCascadeDepth
  · obtain ⟨evs,hq,hy⟩ := h.queue le
    refine ⟨(ev,depth),e.queue,_,rfl,hq,fun y hm => ?_⟩
    obtain ⟨ev',hm',rfl⟩ := List.mem_map.mp hm
    have ht : ev'.isTimerElapsed = false := (hy ev' hm').isTimerElapsed hA
    simp only [weight,ht]
    cases hi : e.intercepts ev with
    | true =>
      -- the chain restarts, but below a timer
      have hev : ev.isTimerElapsed = true := by
        cases ev <;> first | rfl | simp [intercepts] at hi
      have hn := nextDepth_of_le (Nat.zero_le e.maxCascadeDepth) hb
      simp [hev,hn]
    | false =>
      have hn := nextDepth_of_le le hb
      cases hev : ev.isTimerElapsed <;> simp [hn] <;> omega
  · cases h with
    | dropped => exact ⟨(ev,depth),e.queue,[],rfl,by simp [notify,record],by simp⟩
    | _ => contradiction

theorem drain_ends (π : HashOrder) {e : Engine A N} (wf : e.ScenesEnd)
    (hb : e.maxCascadeDepth+1 < 2^32) (hA : Adapter.DispatchTimerless A) :
    ∃ r, Settles (fun n => drain π n e) r ∧
      (∀ e', r = .ok e' → e.Wiring e' ∧ e'.queue = []) ∧
      ∀ err, r = .error err → err ≠ .outOfFuel := by
  generalize hm : e.maxCascadeDepth = bound at hb
  generalize hq : e.queue = q
  induction q using (worked_wellFounded (weight bound)).induction generalizing e with
  | _ q ih =>
    cases q with
    | nil =>
      refine ⟨.ok e,.succ (.const _) (fun n => ?_),?_,by rintro _ ⟨⟩⟩
      · rw [drain,hq]
      · rintro _ ⟨⟩
        exact ⟨.refl e,hq⟩
    | cons x rest =>
      have hw : e.Wiring { e with queue := rest } := ⟨rfl,rfl,rfl,rfl,rfl,rfl⟩
      obtain ⟨r,hr,hok,herr⟩ := (process_ends (wf.of_wiring hw) π x.1 x.2).of_wiring hw
      have hd (n) : drain π (n+1) e = (process π n x.1 x.2 { e with queue := rest } >>= drain π n) := by
        rw [drain,hq]
      cases r with
      | error err =>
        exact ⟨.error err,(hr.bind (by rintro _ ⟨⟩) (fun _ h => h)).succ hd,by rintro _ ⟨⟩,herr⟩
      | ok e₁ =>
        obtain ⟨k,hk⟩ := hr
        have h₁ := process_processed (hk k le_rfl)
        have hw₁ := hok e₁ rfl
        have hworked := h₁.worked hA (by rw [show e.maxCascadeDepth = bound from hm]; exact hb)
        rw [show e.maxCascadeDepth = bound from hm] at hworked
        obtain ⟨s,hs,hsok,hserr⟩ := ih e₁.queue hworked (wf.of_wiring hw₁)
          (hw₁.maxCascadeDepth.trans hm) rfl
        refine ⟨s,(Settles.bind ⟨k,hk⟩ (by rintro _ ⟨⟩; exact hs) (by rintro _ ⟨⟩)).succ hd,
          fun e' he => ?_,hserr⟩
        obtain ⟨hw',hq'⟩ := hsok e' he
        exact ⟨hw₁.trans hw',hq'⟩

/-- No queued event is deeper than one hop beyond the bound. -/
def QueueBounded (e : Engine A N) : Prop := ∀ x ∈ e.queue, x.2 ≤ e.maxCascadeDepth+1

theorem Processed.queueBounded {π : HashOrder} {fuel depth : ℕ} {ev : Event} {e e' : Engine A N}
    (hb : e.maxCascadeDepth+1 < 2^32) (h : Processed π fuel depth e ev e') (hq : e.QueueBounded) :
    e'.QueueBounded := by
  intro x hx
  rw [h.wiring.maxCascadeDepth]
  by_cases le : depth ≤ e.maxCascadeDepth
  · obtain ⟨evs,he,-⟩ := h.queue le
    rw [he] at hx
    rcases List.mem_append.mp hx with hx | hx
    · exact hq x hx
    · obtain ⟨ev',-,rfl⟩ := List.mem_map.mp hx
      split_ifs
      · rw [nextDepth_of_le (Nat.zero_le _) hb]
        omega
      · rw [nextDepth_of_le le hb]
        omega
  · cases h with
    | dropped => exact hq x hx
    | _ => contradiction

end Engine

/-- What a host may call. -/
inductive Call
  | start
  | inject (ev : Event)
  | advance (dt : Millis)
  deriving DecidableEq

variable {A N : Type} [Adapter A] [NorthboundAdapter N]

def Call.run (π : HashOrder) (fuel : ℕ) (e : Engine A N) : Call → Exec (Engine A N)
  | start => e.start π fuel
  | inject ev => e.inject π fuel ev
  | advance dt => e.advance π fuel dt

/-- The engine a call drains. -/
def Call.begin (π : HashOrder) (e : Engine A N) : Call → Engine A N
  | start => (e.record .started).tickAdapters π
  | inject ev => e.enqueue ev 0
  | advance dt => (e.elapse dt).tickAdapters π

theorem wiring_begin (π : HashOrder) (e : Engine A N) (call : Call) :
    e.Wiring (call.begin π e) := by
  have hs (e : Engine A N) : (e.tickAdapters π).adapters.size = e.adapters.size := by
    simp [Engine.tickAdapters,Engine.record,Engine.enqueueAll,AdapterTable.tick,AdapterTable.size]
  cases call with
  | inject ev => exact ⟨rfl,rfl,rfl,rfl,rfl,rfl⟩
  | start => exact ⟨rfl,rfl,rfl,rfl,rfl,hs (e.record .started)⟩
  | advance dt => exact ⟨rfl,rfl,rfl,rfl,rfl,hs (e.elapse dt)⟩

theorem Step.queueBounded {π : HashOrder} {host : Host N} {c c' : Config A N}
    (step : Step π host c c') (hb : c.engine.maxCascadeDepth+1 < 2^32)
    (hq : c.engine.QueueBounded) : c'.engine.QueueBounded := by
  have surface {e e' : Engine A N} (evs : List Event) (idle : e.queue = [])
      (he : e'.queue = e.queue ++ evs.map fun ev => (ev,0)) : e'.QueueBounded := by
    intro x hx
    rw [he,idle] at hx
    obtain ⟨ev,-,rfl⟩ := List.mem_map.mp hx
    exact Nat.zero_le _
  cases step with
  | start idle => exact surface _ idle rfl
  | advance dt idle => exact surface _ idle rfl
  | inject ev may idle => exact surface [ev] idle rfl
  | synced idle => exact hq
  | addNorthbound n may idle => exact hq
  | process fuel next h =>
    have hp := Engine.process_processed h
    refine hp.queueBounded (by exact hb) fun x hx => hq x ?_
    rw [next]
    exact List.mem_cons_of_mem _ hx

/-- Every call ends with an empty queue, unless it runs into a misbound device; the queue never
holds an event more than one hop beyond the bound; what lies beyond it is only reported as
dropped; and whatever an event within the bound puts on the queue lies exactly one hop deeper. -/
theorem calls_terminate (π : HashOrder) {e₀ : Engine A N} {p : Phase} (wf : e₀.ScenesEnd)
    (hb : e₀.maxCascadeDepth < 2^32-1) (hA : Adapter.DispatchTimerless A) :
    (∀ call : Call, ∃ r, Settles (fun fuel => call.run π fuel e₀) r ∧
      (∀ e', r = .ok e' → e'.queue = []) ∧
      ∀ err, r = .error err → ∃ device idx, err = .noAdapter idx ∧
        e₀.deviceToAdapter.lookup device = some idx ∧ e₀.adapters.size ≤ idx) ∧
    (∀ c, e₀.queue = [] → Run π .any ⟨e₀,p⟩ c → ∀ x ∈ c.engine.queue, x.2 ≤ e₀.maxCascadeDepth+1) ∧
    (∀ fuel ev depth, e₀.maxCascadeDepth < depth →
      e₀.process π fuel ev depth = .ok (e₀.notify (.cascadeDropped ev depth))) ∧
    ∀ fuel ev depth e', depth ≤ e₀.maxCascadeDepth → e₀.process π fuel ev depth = .ok e' →
      ∃ evs : List Event, (∀ ev' ∈ evs, ev'.isTimerElapsed = false) ∧
        e'.queue = e₀.queue ++
          evs.map fun ev' => (ev',if e₀.intercepts ev then 1 else depth+1) := by
  have hb' : e₀.maxCascadeDepth+1 < 2^32 := by omega
  refine ⟨fun call => ?_,fun c idle run => ?_,fun fuel ev depth deep => ?_,
    fun fuel ev depth e' le h => ?_⟩
  · have hw := wiring_begin π e₀ call
    obtain ⟨r,hr,hok,herr⟩ := Engine.drain_ends π (wf.of_wiring hw)
      (by rwa [hw.maxCascadeDepth]) hA
    have hm (err) (he : r = .error err) : e₀.Misbound err := by
      obtain ⟨n,hn⟩ := hr
      have hs := (Engine.drain_safe π n (call.begin π e₀)).of_wiring hw
      exact hs.misbound err ((hn n le_rfl).trans he) (herr err he)
    cases call with
    | inject ev => exact ⟨r,hr,fun e' he => (hok e' he).2,hm⟩
    | advance dt => exact ⟨r,hr,fun e' he => (hok e' he).2,hm⟩
    | start =>
      cases r with
      | error err =>
        exact ⟨.error err,hr.bind (by rintro _ ⟨⟩) (fun _ h => h),by rintro _ ⟨⟩,hm⟩
      | ok e₁ =>
        refine ⟨.ok (e₁.syncNorthboundStartupState π),
          hr.bind (by rintro _ ⟨⟩; exact .const _) (by rintro _ ⟨⟩),?_,by rintro _ ⟨⟩⟩
        rintro _ ⟨⟩
        exact (hok e₁ rfl).2
  · have inv : c.engine.QueueBounded ∧ c.engine.maxCascadeDepth = e₀.maxCascadeDepth := by
      induction run with
      | refl => exact ⟨by simp [Engine.QueueBounded,idle],rfl⟩
      | tail _ step ih =>
        exact ⟨step.queueBounded (by rwa [ih.2]) ih.1,step.wiring.maxCascadeDepth.trans ih.2⟩
    rw [← inv.2]
    exact inv.1
  · rw [Engine.process,if_pos deep]
  · have hp := Engine.process_processed h
    obtain ⟨evs,hq,hy⟩ := hp.queue le
    refine ⟨evs,fun ev' hm => (hy ev' hm).isTimerElapsed hA,?_⟩
    rw [hq]
    cases e₀.intercepts ev with
    | true => rw [if_pos rfl,if_pos rfl,Engine.nextDepth_of_le (Nat.zero_le _) hb']
    | false => simp [Engine.nextDepth_of_le le hb']

theorem lampEngine_scenesEnd : lampEngine.ScenesEnd :=
  ⟨fun a => ⟨a,fun b h => by obtain ⟨cmds,hl,-⟩ := h; cases hl⟩⟩

/-- The lamp is bound to its adapter, so a request for it returns. -/
theorem lamp_request_returns : ∃ e', Settles (fun fuel =>
    (Call.inject (.requestedChange lamp .toggle)).run .identity fuel lampEngine) (.ok e') ∧
      e'.queue = [] := by
  obtain ⟨r,hr,hok,herr⟩ := (calls_terminate .identity (p := .wired) lampEngine_scenesEnd
    (by decide) VirtualDeviceAdapter.dispatchTimerless).1 (.inject (.requestedChange lamp .toggle))
  cases r with
  | ok e' => exact ⟨e',hr,hok e' rfl⟩
  | error err =>
    obtain ⟨device,idx,-,hl,hs⟩ := herr err rfl
    have hb : lampEngine.deviceToAdapter.lookup device = if device = lamp then some 1 else none :=
      HashMap.lookup_insert _ _ _ _
    rw [hb] at hl
    split_ifs at hl
    cases hl
    exact absurd hs (by decide)

/-- A lamp bound to a slot that no adapter has. -/
def strayEngine : Engine VirtualDeviceAdapter MockNorthbound := Engine.new.bindDevice lamp 1

/-- A call on an engine with a stray binding does not return. -/
theorem stray_request_panics : strayEngine.ScenesEnd ∧ strayEngine.maxCascadeDepth < 2^32-1 ∧
    Adapter.DispatchTimerless VirtualDeviceAdapter ∧ ∀ fuel e',
      (Call.inject (.requestedChange lamp .toggle)).run .identity fuel strayEngine ≠ .ok e' := by
  refine ⟨⟨fun a => ⟨a,fun b h => by obtain ⟨cmds,hl,-⟩ := h; cases hl⟩⟩,by decide,
    VirtualDeviceAdapter.dispatchTimerless,fun fuel e' h => ?_⟩
  match fuel with
  | 0 => cases h
  | 1 => cases h
  | n+2 => cases h

end Domiform
