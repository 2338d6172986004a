import Domiform.Engine.Elapsing
import Domiform.Library.Stale
import Domiform.RestApi

/-! Relative requests. A toggle or a brightness step is resolved against the store when it is
dispatched, but the echo that moves the store is processed only after the requests that came with it
in the same tick. -/
namespace Domiform
open Library Relation

namespace Desired

def isRelative : Desired → Bool
  | toggle | adjustBrightness _ => true
  | _ => false

/-- A step of the brightness, in percent. -/
def nudge (level : ℤ) (delta : Int8) : ℤ := max 0 (min (level+delta.toInt) 100)

/-- What an intent asks of a switch and a brightness. -/
def applied (s : Bool × ℤ) : Desired → Bool × ℤ
  | toggle => (!s.1,s.2)
  | adjustBrightness delta => (s.1,nudge s.2 delta)
  | _ => s

/-- The intents that are dispatched to flip the switch. -/
def flip? : Desired → Option Unit
  | toggle => some ()
  | _ => none

/-- The intents that are dispatched to step the brightness. -/
def step? : Desired → Option Int8
  | adjustBrightness delta => if delta = 0 then none else some delta
  | _ => none

/-- What the device reports when the intent is dispatched at the given switch and level. -/
def answer (on : Bool) (level : ℤ) : Desired → List CapabilityState
  | toggle => [.switch !on]
  | adjustBrightness delta =>
    if delta = 0 then [] else [.brightness (Engine.clampLevel (level+delta.toInt))]
  | _ => []

theorem nudge_mono (delta : Int8) : Monotone fun level => nudge level delta := by
  intro a b h
  change max 0 (min (a+delta.toInt) 100) ≤ max 0 (min (b+delta.toInt) 100)
  omega

theorem toNat_clampLevel (x : ℤ) : ((Engine.clampLevel x).toNat : ℤ) = max 0 (min x 100) := by
  have h : (max 0 (min x 100)).toNat < UInt8.size := by
    have : UInt8.size = 256 := rfl
    omega
  unfold Engine.clampLevel
  rw [UInt8.toNat_ofNat_of_lt' h]
  omega

end Desired

/-- It answers every command as the virtual adapter does. -/
def Adapter.IsVirtual {A : Type} [Adapter A] (a : A) : Prop :=
  ∀ cmd now, Adapter.dispatch a cmd now = (VirtualDeviceAdapter.dispatch cmd,a)

namespace Engine
variable {A : Type} [Adapter A]

/-- An engine without rules that serves a virtual device through the REST API, and is left alone
otherwise: no retry is pending, and no other adapter has anything to say. `inbound` are the batches
that the HTTP threads will have queued by each tick. -/
structure Serving (d : DeviceId) (inbound : List (List Inbound)) (e : Engine A RestApiAdapter) :
    Prop where
  rules : e.rules = []
  retries : e.retries = ∅
  bound : ∃ i a, e.deviceToAdapter.lookup d = some (i+1) ∧ e.adapters.rest[i]? = some a ∧
    Adapter.IsVirtual a
  quiet : ∀ a ∈ e.adapters.rest, ∀ now, Adapter.tick a now = ([],a)
  northbound : ∃ shared received, e.northbound = [⟨⟨shared,inbound⟩,received⟩]

namespace Serving
variable {d : DeviceId} {inbound : List (List Inbound)} {e e' : Engine A RestApiAdapter}

theorem of_eq (h : e.Serving d inbound) (hr : e'.rules = e.rules) (hp : e'.retries = e.retries)
    (hd : e'.deviceToAdapter = e.deviceToAdapter) (ha : e'.adapters.rest = e.adapters.rest)
    (hn : e'.northbound = e.northbound) : e'.Serving d inbound := by
  refine ⟨hr.trans h.rules,hp.trans h.retries,?_,?_,?_⟩
  · rw [hd,ha]
    exact h.bound
  · rw [ha]
    exact h.quiet
  · rw [hn]
    exact h.northbound

theorem fan (h : e.Serving d inbound) (device : DeviceId) (v : CapabilityState) :
    (e.fanStateFolded device v).Serving d inbound := by
  obtain ⟨shared,received,hn⟩ := h.northbound
  refine ⟨h.rules,h.retries,h.bound,h.quiet,?_⟩
  change ∃ shared received, e.northbound.map (fun nb => nb.stateFolded device v) = _
  rw [hn]
  exact ⟨_,_,rfl⟩

/-- The device echoes a command that sets a state. -/
theorem dispatch (h : e.Serving d inbound) {cmd : Command} {v : CapabilityState}
    (target : cmd.targetDevice = some d) (echo : cmd.echo = some v) :
    ∃ e', dispatchDevice cmd 1 none 0 e = .ok e' ∧ e'.Serving d inbound ∧ e'.state = e.state ∧
      e'.maxCascadeDepth = e.maxCascadeDepth ∧ e'.queue = e.queue ++ [(.stateReported d v,1)] := by
  obtain ⟨i,a,hb,ha,hv⟩ := h.bound
  have hset : e.adapters.rest.set i a = e.adapters.rest := by
    obtain ⟨hi,rfl⟩ := List.getElem?_eq_some_iff.mp ha
    exact List.set_getElem_self hi
  have hout : VirtualDeviceAdapter.dispatch cmd = .ok [.stateReported d v] := by
    simp [VirtualDeviceAdapter.dispatch,target,echo]
  have hbound : cmd.targetDevice.bind (e.issue cmd none).2.deviceToAdapter.lookup = some (i+1) := by
    rw [target]
    exact hb
  have hdisp : (e.issue cmd none).2.adapters.dispatch (i+1) cmd (e.issue cmd none).2.now =
      some (.ok [.stateReported d v],{ e.adapters with rest := e.adapters.rest }) := by
    change e.adapters.dispatch (i+1) cmd e.now = _
    simp [AdapterTable.dispatch,ha,hv cmd e.now,hout,hset]
  exact ⟨_,dispatchDevice_of_bound hbound hdisp,h.of_eq rfl rfl rfl rfl rfl,rfl,rfl,rfl⟩

/-- A relative intent is dispatched against the store, and its echo queued behind everything else. -/
theorem request (h : e.Serving d inbound) {on : Bool} {level : ℤ} (hs : e.state.switchIs d = some on)
    (hl : e.state.numValue d .brightness = some level) {desired : Desired}
    (relative : desired.isRelative = true) (π : HashOrder) :
    ∃ e', (∀ fuel, process π (fuel+1) (.requestedChange d desired) 0 e = .ok e') ∧
      e'.Serving d inbound ∧ e'.state = e.state ∧ e'.maxCascadeDepth = e.maxCascadeDepth ∧
      e'.queue = e.queue ++ (desired.answer on level).map fun v => (.stateReported d v,1) := by
  have hnext : ∀ fuel, process π (fuel+1) (.requestedChange d desired) 0 e =
      requestChange (fuel+1) d desired 0 (e.notify (.eventReceived (.requestedChange d desired) 0)) :=
    fun fuel => if_neg (Nat.not_lt_zero _)
  have h₁ : (e.notify (.eventReceived (.requestedChange d desired) 0)).Serving d inbound :=
    h.of_eq rfl rfl rfl rfl rfl
  have refan {e₁ : Engine A RestApiAdapter} (h₁ : e₁.Serving d inbound) :
      (e₁.refan d desired.kind).Serving d inbound ∧ (e₁.refan d desired.kind).state = e₁.state ∧
        (e₁.refan d desired.kind).maxCascadeDepth = e₁.maxCascadeDepth ∧
        (e₁.refan d desired.kind).queue = e₁.queue := by
    unfold Engine.refan
    split
    · exact ⟨h₁.fan d _,rfl,rfl,rfl⟩
    · exact ⟨h₁,rfl,rfl,rfl⟩
  -- a command that resolves to an absolute one is echoed
  have sent (cmd cmd' : Command) {v : CapabilityState}
      (hc : commandForRequestedChange d desired = some cmd)
      (hr : e.resolveImplicitStateCommand cmd = cmd') (target : cmd.targetDevice = some d)
      (echo : cmd'.echo = some v) :
      ∃ e', (∀ fuel, process π (fuel+1) (.requestedChange d desired) 0 e = .ok e') ∧
        e'.Serving d inbound ∧ e'.state = e.state ∧ e'.maxCascadeDepth = e.maxCascadeDepth ∧
        e'.queue = e.queue ++ [(.stateReported d v,1)] := by
    have target' : cmd'.targetDevice = some d := by
      rw [← hr,resolveImplicitStateCommand_targetDevice,target]
    have h₂ : ((e.notify (.eventReceived (.requestedChange d desired) 0)).notify
        (.commandDispatched cmd' 0)).Serving d inbound := h₁.of_eq rfl rfl rfl rfl rfl
    obtain ⟨e₂,hd,hserv,hst,hm,hq⟩ := h₂.dispatch target' echo
    obtain ⟨hserv',hst',hm',hq'⟩ := refan hserv
    refine ⟨_,fun fuel => ?_,hserv',hst'.trans hst,hm'.trans hm,hq'.trans hq⟩
    have hrun : dispatchAt (fuel+1) cmd 1 none 0
        (e.notify (.eventReceived (.requestedChange d desired) 0)) = .ok e₂ := by
      rw [dispatchAt_device (by rw [target]; rfl)]
      have hr' : (e.notify (.eventReceived (.requestedChange d desired) 0)).resolveImplicitStateCommand
        cmd = cmd' := hr
      rw [hr']
      exact hd
    rw [hnext]
    simp only [requestChange,hc,hrun]
    rfl
  cases desired with
  | toggle =>
    refine sent (.toggleSwitch d) (.setSwitch d !on) rfl ?_ rfl rfl
    simp [resolveImplicitStateCommand,hs]
  | adjustBrightness delta =>
    by_cases hzero : delta = 0
    · -- nothing to dispatch
      obtain ⟨hserv',hst',hm',hq'⟩ := refan h₁
      refine ⟨_,fun fuel => ?_,hserv',hst',hm',?_⟩
      · rw [hnext]
        subst hzero
        rfl
      · simp only [Desired.answer,if_pos hzero,List.map_nil,List.append_nil]
        exact hq'
    · have hsign : delta.toInt ≠ 0 := fun h0 => hzero (Int8.toInt_inj.mp h0)
      have habs : (UInt8.ofNat delta.toInt.natAbs).toNat = delta.toInt.natAbs := by
        have hlo := Int8.le_toInt delta
        have hhi := Int8.toInt_lt delta
        rw [UInt8.toNat_ofNat_of_lt']
        have : UInt8.size = 256 := rfl
        omega
      have hans : Desired.answer on level (.adjustBrightness delta) =
          [.brightness (clampLevel (level+delta.toInt))] := if_neg hzero
      rw [hans]
      rcases lt_or_gt_of_ne hsign with hneg | hpos
      · refine sent (.decreaseBrightness d (UInt8.ofNat delta.toInt.natAbs))
          (.setBrightness d (clampLevel (level+delta.toInt)) none) ?_ ?_ rfl rfl
        · simp only [commandForRequestedChange]
          rw [if_neg (by omega),if_pos hneg]
        · simp only [resolveImplicitStateCommand,hl,habs]
          congr 2
          omega
      · refine sent (.increaseBrightness d (UInt8.ofNat delta.toInt.natAbs))
          (.setBrightness d (clampLevel (level+delta.toInt)) none) ?_ ?_ rfl rfl
        · simp only [commandForRequestedChange]
          rw [if_pos hpos]
        · simp only [resolveImplicitStateCommand,hl,habs]
          congr 2
          omega
  | set state => cases relative
  | sendIr code => cases relative

/-- What leaves the engine serving, its store and its queue as they were. -/
def Undisturbed (e e' : Engine A RestApiAdapter) : Prop :=
  (∀ d inbound, e.Serving d inbound → e'.Serving d inbound) ∧ e'.state = e.state ∧
    e'.maxCascadeDepth = e.maxCascadeDepth ∧ e'.queue = e.queue

theorem Undisturbed.trans {e'' : Engine A RestApiAdapter} (h : Undisturbed e e')
    (h' : Undisturbed e' e'') : Undisturbed e e'' :=
  ⟨fun d inbound hs => h'.1 d inbound (h.1 d inbound hs),h'.2.1.trans h.2.1,
    h'.2.2.1.trans h.2.2.1,h'.2.2.2.trans h.2.2.2⟩

theorem undisturbed_cancelForTimer (e : Engine A RestApiAdapter) (rule : RuleId) :
    Undisturbed e (e.cancelForTimer rule) := by
  unfold cancelForTimer
  cases e.pendingFor.lookup rule with
  | none => exact ⟨fun _ _ => id,rfl,rfl,rfl⟩
  | some p => exact ⟨fun _ _ h => h.of_eq rfl rfl rfl rfl rfl,rfl,rfl,rfl⟩

theorem undisturbed_cancelRevertedForTimers (π : HashOrder) (e : Engine A RestApiAdapter) :
    Undisturbed e (e.cancelRevertedForTimers π) := by
  unfold cancelRevertedForTimers
  generalize e.revertedRules π = rules
  induction rules generalizing e with
  | nil => exact ⟨fun _ _ => id,rfl,rfl,rfl⟩
  | cons rule rules ih => exact (undisturbed_cancelForTimer e rule).trans (ih _)

/-- Without rules an event does no more than fold. -/
theorem react_of_ruleless (π : HashOrder) (fuel : ℕ) {ev : Event} (depth : ℕ) (h : e.rules = [])
    (quiet : ∀ device v, ev ≠ .stateReported device v) : react π fuel ev depth e = .ok e := by
  have hc (prior) : e.considerRules ev prior = (e,[]) := by
    unfold considerRules
    rw [h]
    rfl
  cases ev with
  | stateReported device v => exact absurd rfl (quiet device v)
  | _ =>
    unfold react foldState
    simp only [hc]
    rfl

theorem report (h : e.Serving d inbound) (v : CapabilityState) {depth : ℕ}
    (le : depth ≤ e.maxCascadeDepth) (π : HashOrder) :
    ∃ e', (∀ fuel, process π fuel (.stateReported d v) depth e = .ok e') ∧
      e'.Serving d inbound ∧ e'.state = e.state.set d v ∧
      e'.maxCascadeDepth = e.maxCascadeDepth ∧ e'.queue = e.queue := by
  have hstart : ∀ fuel, process π fuel (.stateReported d v) depth e =
      react π fuel (.stateReported d v) depth (e.notify (.eventReceived (.stateReported d v) depth)) :=
    fun fuel => if_neg (not_lt.mpr le)
  generalize he₁ : e.notify (.eventReceived (.stateReported d v) depth) = e₁ at hstart
  have h₁ : e₁.Serving d inbound := by
    rw [← he₁]
    exact h.of_eq rfl rfl rfl rfl rfl
  have h₂ : (e₁.foldState (.stateReported d v)).Serving d inbound :=
    (h₁.fan d v).of_eq rfl rfl rfl rfl rfl
  obtain ⟨hserv,hstate,hmax,hqueue⟩ :=
    undisturbed_cancelRevertedForTimers π (e₁.foldState (.stateReported d v))
  have h₃ := hserv d inbound h₂
  refine ⟨_,fun fuel => ?_,h₃,?_,?_,?_⟩
  · have hc (prior) : ((e₁.foldState (.stateReported d v)).cancelRevertedForTimers π).considerRules
        (.stateReported d v) prior =
          ((e₁.foldState (.stateReported d v)).cancelRevertedForTimers π,[]) := by
      unfold considerRules
      rw [h₃.rules]
      rfl
    rw [hstart]
    unfold react
    simp only [hc]
    rfl
  · rw [hstate,← he₁]
    rfl
  · rw [hmax,← he₁]
    rfl
  · rw [hqueue,← he₁]
    rfl

/-- The backstop drops what is too deep. -/
theorem dropped {ev : Event} {depth : ℕ} (deep : e.maxCascadeDepth < depth) (π : HashOrder)
    (fuel : ℕ) : process π fuel ev depth e = .ok (e.notify (.cascadeDropped ev depth)) := if_pos deep

/-- A timer that elapses finds neither a retry nor a rule. -/
theorem elapsed (h : e.Serving d inbound) (key : TimerKey) (π : HashOrder) :
    ∃ e', (∀ fuel, process π fuel (.timerElapsed key) 0 e = .ok e') ∧ Undisturbed e e' := by
  have hnone : (e.notify (.eventReceived (.timerElapsed key) 0)).retries.lookup key = none := by
    change e.retries.lookup key = none
    rw [h.retries]
    rfl
  have hstart : ∀ fuel, process π fuel (.timerElapsed key) 0 e =
      if key.startsWith forKeyPrefix then
        (e.notify (.eventReceived (.timerElapsed key) 0)).fireElapsedFor π fuel key
      else react π fuel (.timerElapsed key) 0 (e.notify (.eventReceived (.timerElapsed key) 0)) := by
    intro fuel
    apply (if_neg (Nat.not_lt_zero _)).trans
    simp only [hnone]
  have hrules : (e.notify (.eventReceived (.timerElapsed key) 0)).rules = [] := h.rules
  have hu : Undisturbed e (e.notify (.eventReceived (.timerElapsed key) 0)) :=
    ⟨fun _ _ hs => hs.of_eq rfl rfl rfl rfl rfl,rfl,rfl,rfl⟩
  generalize e.notify (.eventReceived (.timerElapsed key) 0) = e₁ at hstart hrules hu
  by_cases hfor : key.startsWith forKeyPrefix = true
  · simp only [if_pos hfor] at hstart
    cases hf : (HashMap.iter π e₁.trace.length e₁.pendingFor).find? (fun p => p.2.key == key) with
    | none =>
      refine ⟨e₁,fun fuel => ?_,hu⟩
      rw [hstart]
      simp only [fireElapsedFor,hf]
    | some p =>
      refine ⟨{ e₁ with pendingFor := e₁.pendingFor.erase p.1 },fun fuel => ?_,
        hu.trans ⟨fun _ _ hs => hs.of_eq rfl rfl rfl rfl rfl,rfl,rfl,rfl⟩⟩
      rw [hstart]
      simp only [fireElapsedFor,hf,hrules,List.find?_nil]
  · simp only [if_neg hfor] at hstart
    refine ⟨e₁,fun fuel => ?_,hu⟩
    rw [hstart]
    exact react_of_ruleless π fuel 0 hrules (by simp)

/-- Draining takes the next event off and goes on. -/
theorem drain_cons {π : HashOrder} {ev : Event} {depth : ℕ} {rest : List (Event × ℕ)}
    {r : Exec (Engine A RestApiAdapter)} (next : e.queue = (ev,depth) :: rest)
    (hp : ∀ fuel, process π (fuel+1) ev depth { e with queue := rest } = .ok e')
    (h : Settles (fun fuel => drain π fuel e') r) : Settles (fun fuel => drain π fuel e) r := by
  obtain ⟨n,hn⟩ := h
  refine ⟨n+2,fun m hm => ?_⟩
  obtain ⟨k,rfl⟩ : ∃ k, m = k+2 := ⟨m-2,by omega⟩
  have hk : drain π (k+1) e' = r := hn (k+1) (by omega)
  change drain π (k+1+1) e = r
  rw [drain]
  simp only [next,hp]
  exact hk

/-- What the device reports when the event is processed. -/
def reply (on : Bool) (level : ℤ) : Event → List CapabilityState
  | .requestedChange _ desired => desired.answer on level
  | _ => []

/-- The events of a tick are all processed before the first echo. -/
theorem drain_tick {on : Bool} {level : ℤ} {evs : List Event}
    (hevs : ∀ ev ∈ evs, (∃ key, ev = .timerElapsed key) ∨
      ∃ desired : Desired, desired.isRelative = true ∧ ev = .requestedChange d desired)
    {tail : List (Event × ℕ)} (h : e.Serving d inbound)
    (hq : e.queue = evs.map (fun ev => (ev,0)) ++ tail) (hs : e.state.switchIs d = some on)
    (hl : e.state.numValue d .brightness = some level) (π : HashOrder) :
    ∃ e', (∀ r, Settles (fun fuel => drain π fuel e') r → Settles (fun fuel => drain π fuel e) r) ∧
      e'.Serving d inbound ∧ e'.state = e.state ∧ e'.maxCascadeDepth = e.maxCascadeDepth ∧
      e'.queue = tail ++ (evs.flatMap (reply on level)).map fun v => (.stateReported d v,1) := by
  induction evs generalizing e tail with
  | nil =>
    rw [List.map_nil,List.nil_append] at hq
    exact ⟨e,fun _ => id,h,rfl,rfl,by simp [hq]⟩
  | cons ev evs ih =>
    have hrest := fun ev' hm => hevs ev' (List.mem_cons_of_mem ev hm)
    have h₀ : ({ e with queue := evs.map (fun ev => (ev,0)) ++ tail } :
      Engine A RestApiAdapter).Serving d inbound := h.of_eq rfl rfl rfl rfl rfl
    obtain ⟨e₁,hp,h₁,hst,hmax,hqueue⟩ : ∃ e₁, (∀ fuel, process π (fuel+1) ev 0
        { e with queue := evs.map (fun ev => (ev,0)) ++ tail } = .ok e₁) ∧
        e₁.Serving d inbound ∧ e₁.state = e.state ∧ e₁.maxCascadeDepth = e.maxCascadeDepth ∧
        e₁.queue = evs.map (fun ev => (ev,0)) ++
          (tail ++ (reply on level ev).map fun v => (.stateReported d v,1)) := by
      rcases hevs ev (List.mem_cons_self ..) with ⟨key,rfl⟩ | ⟨desired,relative,rfl⟩
      · obtain ⟨e₁,hp,hu,hst,hmax,hqueue⟩ := h₀.elapsed key π
        exact ⟨e₁,fun fuel => hp _,hu d inbound h₀,hst,hmax,by simp [hqueue,reply]⟩
      · obtain ⟨e₁,hp,h₁,hst,hmax,hqueue⟩ := h₀.request hs hl relative π
        exact ⟨e₁,hp,h₁,hst,hmax,by simp [hqueue,reply]⟩
    rw [← hst] at hs hl
    obtain ⟨e',hd,h',hst',hmax',hq'⟩ := ih hrest h₁ hqueue hs hl
    refine ⟨e',fun r hr => drain_cons (by rw [hq]; rfl) hp (hd r hr),h',hst'.trans hst,
      hmax'.trans hmax,?_⟩
    rw [hq',List.flatMap_cons,List.map_append,List.append_assoc]

/-- Then the echoes are folded, unless the backstop drops them all. -/
theorem drain_echoes {vs : List CapabilityState} (h : e.Serving d inbound)
    (hq : e.queue = vs.map fun v => (.stateReported d v,1)) (π : HashOrder) :
    ∃ e', Settles (fun fuel => drain π fuel e) (.ok e') ∧ e'.queue = [] ∧ e'.Serving d inbound ∧
      e'.maxCascadeDepth = e.maxCascadeDepth ∧
      e'.state = if e.maxCascadeDepth = 0 then e.state else vs.foldl (fun s v => s.set d v) e.state := by
  induction vs generalizing e with
  | nil =>
    refine ⟨e,⟨1,fun m hm => ?_⟩,hq,h,rfl,by simp⟩
    obtain ⟨k,rfl⟩ : ∃ k, m = k+1 := ⟨m-1,by omega⟩
    change drain π (k+1) e = .ok e
    rw [drain,hq]
    rfl
  | cons v vs ih =>
    have h₀ : ({ e with queue := vs.map fun v => (.stateReported d v,1) } :
      Engine A RestApiAdapter).Serving d inbound := h.of_eq rfl rfl rfl rfl rfl
    obtain ⟨e₁,hp,h₁,hst,hmax,hqueue⟩ : ∃ e₁, (∀ fuel, process π (fuel+1) (.stateReported d v) 1
        { e with queue := vs.map fun v => (.stateReported d v,1) } = .ok e₁) ∧
        e₁.Serving d inbound ∧
        e₁.state = (if e.maxCascadeDepth = 0 then e.state else e.state.set d v) ∧
        e₁.maxCascadeDepth = e.maxCascadeDepth ∧
        e₁.queue = vs.map fun v => (.stateReported d v,1) := by
      by_cases hzero : e.maxCascadeDepth = 0
      · refine ⟨_,fun fuel => dropped ?_ π _,h₀.of_eq rfl rfl rfl rfl rfl,?_,rfl,rfl⟩
        · change e.maxCascadeDepth < 1
          omega
        · rw [if_pos hzero]
          rfl
      · obtain ⟨e₁,hp,h₁,hst,hmax,hqueue⟩ := h₀.report v (Nat.one_le_iff_ne_zero.mpr hzero) π
        refine ⟨e₁,fun fuel => hp _,h₁,?_,hmax,hqueue⟩
        rw [if_neg hzero,hst]
    obtain ⟨e',hd,hq',h',hmax',hst'⟩ := ih h₁ hqueue
    refine ⟨e',drain_cons (by rw [hq]; rfl) hp hd,hq',h',hmax'.trans hmax,?_⟩
    rw [hst',hst,hmax]
    by_cases hzero : e.maxCascadeDepth = 0
    · simp only [if_pos hzero]
    · simp only [if_neg hzero]
      rfl

/-- One tick: the batch is answered as a whole, then its answers are folded. -/
theorem advance {on : Bool} {level : ℤ} {batch : List Desired}
    (relative : ∀ desired ∈ batch, desired.isRelative = true)
    (h : e.Serving d (batch.map (Inbound.device d) :: inbound)) (idle : e.queue = [])
    (hs : e.state.switchIs d = some on) (hl : e.state.numValue d .brightness = some level)
    (π : HashOrder) (dt : Millis) :
    ∃ e', Settles (fun fuel => Engine.advance π fuel dt e) (.ok e') ∧ e'.queue = [] ∧
      e'.Serving d inbound ∧ e'.maxCascadeDepth = e.maxCascadeDepth ∧
      e'.state = if e.maxCascadeDepth = 0 then e.state
        else (batch.flatMap fun desired => desired.answer on level).foldl (fun s v => s.set d v)
          e.state := by
  obtain ⟨shared,received,hn⟩ := h.northbound
  have hrest : (e.adapters.rest.flatMap fun a => (Adapter.tick a (e.elapse dt).now).1) = [] := by
    refine List.flatMap_eq_nil_iff.mpr fun a ha => ?_
    rw [h.quiet a ha]
  have hkeep : (e.adapters.rest.map fun a => (Adapter.tick a (e.elapse dt).now).2) =
      e.adapters.rest := by
    refine (List.map_congr_left fun a ha => ?_).trans (List.map_id _)
    rw [h.quiet a ha]
    rfl
  have hheard : (e.elapse dt).heard = batch.map (Event.requestedChange d) := by
    change (e.adapters.rest.flatMap fun a => (Adapter.tick a (e.elapse dt).now).1) ++
      (e.northbound.flatMap fun nb => (nb.tick (e.elapse dt).now).1) = _
    rw [hrest,hn]
    simp [Northbound.tick,Adapter.tick,RestApiAdapter.tick,Inbound.event]
  have hq := tickAdapters_queue π (e.elapse dt)
  rw [hheard,show (e.elapse dt).queue = [] from idle,List.nil_append] at hq
  have h₁ : ((e.elapse dt).tickAdapters π).Serving d inbound := by
    refine ⟨h.rules,h.retries,?_,?_,?_⟩
    · change ∃ i a, _ ∧ (e.adapters.rest.map fun a => (Adapter.tick a (e.elapse dt).now).2)[i]? =
        some a ∧ _
      rw [hkeep]
      exact h.bound
    · change ∀ a ∈ e.adapters.rest.map fun a => (Adapter.tick a (e.elapse dt).now).2, _
      rw [hkeep]
      exact h.quiet
    · change ∃ shared received, (e.northbound.map fun nb => (nb.tick (e.elapse dt).now).2) = _
      rw [hn]
      exact ⟨_,_,rfl⟩
  generalize ((e.elapse dt).adapters.scheduler.due π ((e.elapse dt).trace.length+1)
    (e.elapse dt).now).map Prod.snd = keys at hq
  have hevs : ∀ ev ∈ keys.map Event.timerElapsed ++ batch.map (Event.requestedChange d),
      (∃ key, ev = .timerElapsed key) ∨
        ∃ desired : Desired, desired.isRelative = true ∧ ev = .requestedChange d desired := by
    intro ev hm
    rcases List.mem_append.mp hm with hm | hm
    · obtain ⟨key,-,rfl⟩ := List.mem_map.mp hm
      exact .inl ⟨key,rfl⟩
    · obtain ⟨desired,hb,rfl⟩ := List.mem_map.mp hm
      exact .inr ⟨desired,relative desired hb,rfl⟩
  obtain ⟨e₂,hd₂,h₂,hst₂,hmax₂,hq₂⟩ :=
    drain_tick hevs h₁ (hq.trans (List.append_nil _).symm) hs hl π
  obtain ⟨e₃,hd₃,hq₃,h₃,hmax₃,hst₃⟩ := drain_echoes h₂ hq₂ π
  refine ⟨e₃,hd₂ _ hd₃,hq₃,h₃,hmax₃.trans hmax₂,?_⟩
  have hnil : (keys.map Event.timerElapsed).flatMap (reply on level) = [] := by simp [reply]
  rw [hst₃,hmax₂,hst₂,List.flatMap_append,hnil,List.nil_append,List.flatMap_map]
  rfl

end Serving
end Engine

/-- Steps are resolved one after the other against the store before the tick: the last flip and the
last step survive. -/
theorem fold_answers {d : DeviceId} {s : StateStore} {on : Bool} {level : ℤ}
    (hs : s.switchIs d = some on) (hl : s.numValue d .brightness = some level)
    {batch : List Desired} (relative : ∀ desired ∈ batch, desired.isRelative = true) :
    let s' := (batch.flatMap fun desired => desired.answer on level).foldl (fun s v => s.set d v) s
    s'.switchIs d = some (stale (fun on _ => !on) Desired.flip? on batch) ∧
      s'.numValue d .brightness = some (stale Desired.nudge Desired.step? level batch) := by
  induction batch using List.reverseRecOn with
  | nil => exact ⟨hs,hl⟩
  | append_singleton batch x ih =>
    have hx := relative x (by simp)
    obtain ⟨ihs,ihl⟩ := ih fun desired hm => relative desired (List.mem_append_left _ hm)
    simp only [List.flatMap_append,List.flatMap_singleton,List.foldl_append]
    generalize (batch.flatMap fun desired => desired.answer on level).foldl
      (fun s v => s.set d v) s = t at ihs ihl ⊢
    unfold stale at ihs ihl ⊢
    rw [List.filterMap_append,List.filterMap_append]
    cases x with
    | toggle =>
      refine ⟨?_,?_⟩
      · simp [Desired.answer,Desired.flip?,StateStore.switchIs,StateStore.boolValue,
          StateStore.get_set,CapabilityState.kind,CapabilityState.asBool]
      · simpa [Desired.answer,Desired.step?,StateStore.numValue,StateStore.get_set,
          CapabilityState.kind] using ihl
    | adjustBrightness delta =>
      by_cases hzero : delta = 0
      · refine ⟨?_,?_⟩
        · simpa [Desired.answer,Desired.flip?,hzero] using ihs
        · simpa [Desired.answer,Desired.step?,hzero] using ihl
      · refine ⟨?_,?_⟩
        · simpa [Desired.answer,Desired.flip?,hzero,StateStore.switchIs,StateStore.boolValue,
            StateStore.get_set,CapabilityState.kind] using ihs
        · simp [Desired.answer,Desired.step?,hzero,StateStore.numValue,StateStore.get_set,
            CapabilityState.kind,CapabilityState.asI64,Desired.toNat_clampLevel,Desired.nudge]
    | set state => cases hx
    | sendIr code => cases hx

/-- What the intents ask for, one after the other. -/
def Desired.sequel (on : Bool) (level : ℤ) (intents : List Desired) : Bool × ℤ :=
  intents.foldl Desired.applied (on,level)

namespace Engine
variable {A : Type} [Adapter A] {d : DeviceId} {on : Bool} {level : ℤ}

/-- One advance after the other. -/
def advances (π : HashOrder) (fuel : ℕ) (dts : List Millis) (e : Engine A RestApiAdapter) :
    Exec (Engine A RestApiAdapter) := dts.foldlM (fun e dt => e.advance π fuel dt) e

/-- An engine at rest, without rules or northbound adapters, that knows the switch and the brightness
of a virtual device. No retry is pending, and no adapter has anything to say of its own. -/
structure Ready (d : DeviceId) (on : Bool) (level : ℤ) (e : Engine A RestApiAdapter) : Prop where
  idle : e.queue = []
  rules : e.rules = []
  retries : e.retries = ∅
  northbound : e.northbound = []
  bound : ∃ i a, e.deviceToAdapter.lookup d = some (i+1) ∧ e.adapters.rest[i]? = some a ∧
    Adapter.IsVirtual a
  quiet : ∀ a ∈ e.adapters.rest, ∀ now, Adapter.tick a now = ([],a)
  switch : e.state.switchIs d = some on
  brightness : e.state.numValue d .brightness = some level

/-- However the intents are split into batches, one for each tick, the store ends up where they lead
one after the other. -/
def KeepsRelative (π : HashOrder) (d : DeviceId) (on : Bool) (level : ℤ) (intents : List Desired)
    (e : Engine A RestApiAdapter) : Prop :=
  ∀ batches : List (List Desired), batches.flatten = intents →
    ∀ dts : List Millis, dts.length = batches.length → ∀ shared : Mirror,
      ∃ e', Settles (fun fuel => advances π fuel dts
          (e.addNorthbound ⟨shared,batches.map fun batch => batch.map (.device d)⟩)) (.ok e') ∧
        e'.queue = [] ∧ e'.state.switchIs d = some (Desired.sequel on level intents).1 ∧
        e'.state.numValue d .brightness = some (Desired.sequel on level intents).2

/-- What a list of batches leaves, one for each tick. -/
theorem Serving.advances {batches : List (List Desired)}
    (relative : ∀ batch ∈ batches, ∀ desired ∈ batch, desired.isRelative = true) {dts : List Millis}
    (hd : dts.length = batches.length) {e : Engine A RestApiAdapter}
    (h : e.Serving d (batches.map fun batch => batch.map (.device d))) (idle : e.queue = [])
    (hs : e.state.switchIs d = some on) (hl : e.state.numValue d .brightness = some level)
    (π : HashOrder) :
    ∃ e', Settles (fun fuel => Engine.advances π fuel dts e) (.ok e') ∧ e'.queue = [] ∧
      e'.state.switchIs d = some (if e.maxCascadeDepth = 0 then on
        else batches.foldl (stale (fun on _ => !on) Desired.flip?) on) ∧
      e'.state.numValue d .brightness = some (if e.maxCascadeDepth = 0 then level
        else batches.foldl (stale Desired.nudge Desired.step?) level) := by
  induction batches generalizing e on level dts with
  | nil =>
    rw [List.length_nil,List.length_eq_zero_iff] at hd
    subst hd
    exact ⟨e,.const _,idle,by simpa using hs,by simpa using hl⟩
  | cons batch batches ih =>
    cases dts with
    | nil => cases hd
    | cons dt dts =>
      have hbatch := relative batch (List.mem_cons_self ..)
      obtain ⟨e₁,hadv,hq₁,h₁,hmax,hst⟩ := Serving.advance hbatch h idle hs hl π dt
      have hfold := fold_answers hs hl hbatch
      obtain ⟨hs₁,hl₁⟩ : e₁.state.switchIs d = some (if e.maxCascadeDepth = 0 then on
            else stale (fun on _ => !on) Desired.flip? on batch) ∧
          e₁.state.numValue d .brightness = some (if e.maxCascadeDepth = 0 then level
            else stale Desired.nudge Desired.step? level batch) := by
        rw [hst]
        split_ifs
        · exact ⟨hs,hl⟩
        · exact hfold
      obtain ⟨e',hsettle,hq',hs',hl'⟩ := ih (fun b hm => relative b (List.mem_cons_of_mem _ hm))
        (Nat.succ.inj hd) h₁ hq₁ hs₁ hl₁
      refine ⟨e',?_,hq',?_,?_⟩
      · refine hadv.bind (fun a ha => ?_) nofun
        cases ha
        exact hsettle
      · rw [hs',hmax]
        split_ifs <;> rfl
      · rw [hl',hmax]
        split_ifs <;> rfl

/-- Whether the batches keep the intents, in terms of what each batch does to the two values. -/
theorem Ready.keepsRelative_iff {e : Engine A RestApiAdapter} (ready : e.Ready d on level)
    {intents : List Desired} (relative : ∀ desired ∈ intents, desired.isRelative = true)
    (π : HashOrder) : e.KeepsRelative π d on level intents ↔
      ∀ batches : List (List Desired), batches.flatten = intents →
        (if e.maxCascadeDepth = 0 then on
          else batches.foldl (stale (fun on _ => !on) Desired.flip?) on) =
            (Desired.sequel on level intents).1 ∧
        (if e.maxCascadeDepth = 0 then level
          else batches.foldl (stale Desired.nudge Desired.step?) level) =
            (Desired.sequel on level intents).2 := by
  have run (batches : List (List Desired)) (hf : batches.flatten = intents) (dts : List Millis)
      (hd : dts.length = batches.length) (shared : Mirror) : ∃ e', Settles (fun fuel =>
          advances π fuel dts
            (e.addNorthbound ⟨shared,batches.map fun batch => batch.map (.device d)⟩)) (.ok e') ∧
        e'.queue = [] ∧
        e'.state.switchIs d = some (if e.maxCascadeDepth = 0 then on
          else batches.foldl (stale (fun on _ => !on) Desired.flip?) on) ∧
        e'.state.numValue d .brightness = some (if e.maxCascadeDepth = 0 then level
          else batches.foldl (stale Desired.nudge Desired.step?) level) := by
    have hrel : ∀ batch ∈ batches, ∀ desired ∈ batch, desired.isRelative = true := by
      intro batch hb desired hx
      apply relative desired
      rw [← hf]
      exact List.mem_flatten.mpr ⟨batch,hb,hx⟩
    have serving : (e.addNorthbound ⟨shared,batches.map fun batch =>
        batch.map (.device d)⟩).Serving d (batches.map fun batch => batch.map (.device d)) :=
      ⟨ready.rules,ready.retries,ready.bound,ready.quiet,shared,[],by
        simp [addNorthbound,ready.northbound]⟩
    exact serving.advances hrel hd ready.idle ready.switch ready.brightness π
  constructor
  · intro keeps batches hf
    have hd : (List.replicate batches.length 0).length = batches.length := List.length_replicate
    obtain ⟨e₁,h₁,-,hs₁,hl₁⟩ := run batches hf _ hd .default
    obtain ⟨e₂,h₂,-,hs₂,hl₂⟩ := keeps batches hf _ hd .default
    obtain rfl : e₁ = e₂ := Except.ok.inj (h₁.unique h₂)
    exact ⟨Option.some.inj (hs₁.symm.trans hs₂),Option.some.inj (hl₁.symm.trans hl₂)⟩
  · intro h batches hf dts hd shared
    obtain ⟨e₁,h₁,hq₁,hs₁,hl₁⟩ := run batches hf dts hd shared
    obtain ⟨hs,hl⟩ := h batches hf
    exact ⟨e₁,h₁,hq₁,hs₁.trans (congrArg some hs),hl₁.trans (congrArg some hl)⟩

end Engine
namespace Desired
variable {on : Bool} {level : ℤ} {intents : List Desired}

theorem sequel_fst (on : Bool) (level : ℤ) (intents : List Desired) :
    (sequel on level intents).1 = (intents.filterMap flip?).foldl (fun on _ => !on) on := by
  induction intents generalizing on level with
  | nil => rfl
  | cons x intents ih =>
    unfold sequel at ih ⊢
    cases x with
    | toggle => exact ih (!on) level
    | _ => exact ih on _

/-- From a proper level, steps by nothing may be left out. -/
theorem sequel_snd (on : Bool) (proper : 0 ≤ level ∧ level ≤ 100) (intents : List Desired) :
    (sequel on level intents).2 = (intents.filterMap step?).foldl nudge level := by
  induction intents generalizing on level with
  | nil => rfl
  | cons x intents ih =>
    unfold sequel at ih ⊢
    cases x with
    | adjustBrightness delta =>
      have hproper : 0 ≤ nudge level delta ∧ nudge level delta ≤ 100 := by
        unfold nudge
        omega
      have hrest := ih on hproper
      by_cases hzero : delta = 0
      · have hsame : nudge level delta = level := by
          subst hzero
          have h0 : (0 : Int8).toInt = 0 := rfl
          unfold nudge
          omega
        rw [hsame] at hrest
        have hn : step? (adjustBrightness delta) = none := if_pos hzero
        rw [List.filterMap_cons_none hn,← hrest,List.foldl_cons]
        change (List.foldl applied (on,nudge level delta) intents).2 = _
        rw [hsame]
      · simpa [applied,step?,hzero,List.foldl_cons] using hrest
    | _ => exact ih _ proper

/-- At most one flip survives a tick. -/
theorem flips_kept_iff (on : Bool) (level : ℤ) :
    (∀ batches : List (List Desired), batches.flatten = intents →
      batches.foldl (stale (fun on _ => !on) flip?) on = (sequel on level intents).1) ↔
    (intents.filterMap flip?).length ≤ 1 := by
  rw [sequel_fst]
  rcases List.eq_nil_or_concat (intents.filterMap flip?) with hnil | ⟨earlier,x,hsplit⟩
  · rw [hnil]
    refine ⟨fun _ => Nat.zero_le _,?_⟩
    rintro - batches rfl
    exact foldl_stale_of_inert hnil on
  · rw [List.concat_eq_append] at hsplit
    rw [forall_batches_iff hsplit,hsplit,List.foldl_append,List.length_append]
    cases earlier with
    | nil =>
      refine ⟨fun _ => le_rfl,fun _ kept hk => ?_⟩
      rw [List.sublist_nil.mp hk]
      rfl
    | cons x' earlier =>
      constructor
      · intro h
        have h₀ := h [] (List.nil_sublist _)
        have h₁ := h [x'] (List.singleton_sublist.mpr (List.mem_cons_self ..))
        exact absurd (h₀.trans h₁.symm) (by cases on <;> simp)
      · intro h
        simp at h

/-- The last step leads to the same level whichever of the earlier ones it comes behind. -/
theorem steps_kept_iff {y : ℤ} : (∀ batches : List (List Desired), batches.flatten = intents →
      batches.foldl (stale nudge step?) level = y) ↔
    match (intents.filterMap step?).getLast? with
    | none => level = y
    | some last => nudge (lowest nudge level (intents.filterMap step?).dropLast) last = y ∧
        nudge (highest nudge level (intents.filterMap step?).dropLast) last = y := by
  rcases List.eq_nil_or_concat (intents.filterMap step?) with hnil | ⟨earlier,last,hsplit⟩
  · rw [hnil]
    constructor
    · intro h
      rw [← h [intents] (List.append_nil _)]
      exact (foldl_stale_of_inert (by simpa using hnil) level).symm
    · rintro rfl batches rfl
      exact foldl_stale_of_inert hnil level
  · rw [List.concat_eq_append] at hsplit
    rw [forall_batches_iff hsplit,forall_sublist_iff nudge_mono,hsplit,List.getLast?_concat,
      List.dropLast_concat]

/-- From a proper level, the last step hides the earlier ones when they do nothing, or when it hits
a bound from everywhere. -/
def Hidden (level : ℤ) (earlier : List Int8) (last : Int8) : Prop :=
  (∀ delta ∈ earlier, nudge level delta = level) ∨
    0 < last.toInt ∧ 100 ≤ lowest nudge level earlier+last.toInt ∨
    last.toInt < 0 ∧ highest nudge level earlier+last.toInt ≤ 0

/-- The steps lead to the same level in whatever batches they come. -/
def StepsKept (level : ℤ) (intents : List Desired) : Prop :=
  let steps := intents.filterMap step?
  let asked := (sequel true level intents).2
  match steps.getLast? with
  | none => level = asked
  | some last =>
    if level ≤ 100 then Hidden level steps.dropLast last
    else nudge (lowest nudge level steps.dropLast) last = asked ∧
      nudge (highest nudge level steps.dropLast) last = asked

theorem sequel_snd_congr (on on' : Bool) (level : ℤ) (intents : List Desired) :
    (sequel on level intents).2 = (sequel on' level intents).2 := by
  induction intents generalizing on on' level with
  | nil => rfl
  | cons x intents ih => cases x <;> exact ih _ _ _

theorem stepsKept_iff (on : Bool) (proper : 0 ≤ level) :
    (∀ batches : List (List Desired), batches.flatten = intents →
      batches.foldl (stale nudge step?) level = (sequel on level intents).2) ↔
        StepsKept level intents := by
  rw [steps_kept_iff,sequel_snd_congr on true]
  unfold StepsKept
  rcases List.eq_nil_or_concat (intents.filterMap step?) with hnil | ⟨earlier,last,hsplit⟩
  · simp only [hnil,List.getLast?_nil]
  rw [List.concat_eq_append] at hsplit
  simp only [hsplit,List.getLast?_concat,List.dropLast_concat]
  by_cases hle : level ≤ 100
  · rw [if_pos hle]
    -- what is asked for lies between the extremes
    have hasked : (sequel true level intents).2 = nudge (earlier.foldl nudge level) last := by
      rw [sequel_snd true ⟨proper,hle⟩,hsplit,List.foldl_append]
      rfl
    have hlo : lowest nudge level earlier ≤ earlier.foldl nudge level :=
      lowest_le_foldl nudge_mono (List.Sublist.refl earlier)
    have hhi : earlier.foldl nudge level ≤ highest nudge level earlier :=
      foldl_le_highest nudge_mono (List.Sublist.refl earlier)
    have hlevel : lowest nudge level earlier ≤ level :=
      lowest_le_foldl nudge_mono (List.nil_sublist earlier)
    have hlevel' : level ≤ highest nudge level earlier :=
      foldl_le_highest nudge_mono (List.nil_sublist earlier)
    have hrange (kept : List Int8) :
        0 ≤ kept.foldl nudge level ∧ kept.foldl nudge level ≤ 100 := by
      rcases List.eq_nil_or_concat kept with rfl | ⟨init,x,rfl⟩
      · exact ⟨proper,hle⟩
      · rw [List.concat_eq_append,List.foldl_append,List.foldl_cons,List.foldl_nil]
        unfold nudge
        omega
    obtain ⟨lo,-,hlo'⟩ := exists_lowest (f := nudge) level earlier
    obtain ⟨hi,-,hhi'⟩ := exists_highest (f := nudge) level earlier
    have hlo₀ := hrange lo
    have hhi₀ := hrange hi
    rw [hlo'] at hlo₀
    rw [hhi'] at hhi₀
    unfold Hidden
    rw [hasked,← lowest_eq_highest_iff nudge_mono]
    unfold nudge at hlo hhi hlo₀ hhi₀ ⊢
    omega
  · rw [if_neg hle]

/-- When an engine that drops what is deeper than `depth` keeps the intents: at most one flip, and
steps that lead to the same level in whatever batches they come. At depth 0 every echo is dropped. -/
def Harmless (depth : ℕ) (on : Bool) (level : ℤ) (intents : List Desired) : Prop :=
  if depth = 0 then sequel on level intents = (on,level)
  else (intents.filterMap flip?).length ≤ 1 ∧ StepsKept level intents

end Desired

/-- A known brightness is no negative one. -/
theorem StateStore.brightness_nonneg {s : StateStore} {d : DeviceId} {level : ℤ}
    (h : s.numValue d .brightness = some level) : 0 ≤ level := by
  unfold numValue at h
  obtain ⟨v,hv,ha⟩ := Option.bind_eq_some_iff.mp h
  have hk := kind_of_get hv
  cases v <;> cases hk
  cases ha
  exact Int.natCast_nonneg _

/-- Relative requests are kept in every split into ticks exactly when at most one of them flips the
switch, and the steps of the brightness lead to the same level in whatever batches they come. -/
theorem relative_requests_kept_iff {A : Type} [Adapter A] {π : HashOrder}
    {e : Engine A RestApiAdapter} {d : DeviceId} {on : Bool} {level : ℤ} (ready : e.Ready d on level)
    {intents : List Desired} (relative : ∀ desired ∈ intents, desired.isRelative = true) :
    e.KeepsRelative π d on level intents ↔ Desired.Harmless e.maxCascadeDepth on level intents := by
  rw [ready.keepsRelative_iff relative]
  unfold Desired.Harmless
  by_cases hzero : e.maxCascadeDepth = 0
  · simp only [if_pos hzero]
    constructor
    · intro h
      obtain ⟨hs,hl⟩ := h [intents] (List.append_nil _)
      exact Prod.ext hs.symm hl.symm
    · intro h batches _
      rw [h]
      exact ⟨rfl,rfl⟩
  · simp only [if_neg hzero]
    rw [← Desired.flips_kept_iff on level,
      ← Desired.stepsKept_iff on (StateStore.brightness_nonneg ready.brightness)]
    exact ⟨fun h => ⟨fun b hb => (h b hb).1,fun b hb => (h b hb).2⟩,
      fun h b hb => ⟨h.1 b hb,h.2 b hb⟩⟩

/-- A virtual lamp that reported off and 50 percent. -/
theorem known_lamp_ready : ∃ e₁ e : Engine VirtualDeviceAdapter RestApiAdapter,
    ((Engine.new.addAdapter {}).1.bindDevice lamp 1).inject .identity 2
        (.stateReported lamp (.switch false)) = .ok e₁ ∧
      e₁.inject .identity 2 (.stateReported lamp (.brightness 50)) = .ok e ∧ e.maxCascadeDepth = 32 ∧
      e.Ready lamp false 50 := by
  have virtual : Adapter.IsVirtual ({} : VirtualDeviceAdapter) := fun _ _ => rfl
  exact ⟨_,_,rfl,rfl,rfl,rfl,rfl,rfl,rfl,⟨0,{},rfl,rfl,virtual⟩,fun _ _ _ => rfl,rfl,rfl⟩

/-- One flip, and two steps of which the last reaches full brightness in any case. -/
theorem brightened_lamp_is_kept : ∃ e : Engine VirtualDeviceAdapter RestApiAdapter,
    e.Ready lamp false 50 ∧ e.KeepsRelative .identity lamp false 50
      [.adjustBrightness 30,.toggle,.adjustBrightness 70] := by
  obtain ⟨-,e,-,-,hmax,ready⟩ := known_lamp_ready
  refine ⟨e,ready,(relative_requests_kept_iff ready ?_).mpr ?_⟩
  · simp [Desired.isRelative]
  · rw [hmax]
    refine ⟨by decide,.inr (.inl ?_)⟩
    decide

/-- Two toggles in one tick flip the lamp once. -/
theorem double_toggle_is_lost : ∃ e : Engine VirtualDeviceAdapter RestApiAdapter,
    e.Ready lamp false 50 ∧ ¬e.KeepsRelative .identity lamp false 50 [.toggle,.toggle] := by
  obtain ⟨-,e,-,-,hmax,ready⟩ := known_lamp_ready
  refine ⟨e,ready,fun keeps => ?_⟩
  have relative : ∀ desired ∈ [Desired.toggle,.toggle], desired.isRelative = true := by decide
  have h := ((ready.keepsRelative_iff relative _).mp keeps [[.toggle,.toggle]] rfl).1
  rw [hmax] at h
  exact absurd h (by decide)

end Domiform
