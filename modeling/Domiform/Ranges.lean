import Domiform.Bindings
import Domiform.Canonical
import Domiform.Waiting

/-! Ranges over whole runs. What enters the store was reported by an adapter, or echoes a command;
and of all commands, only a brightness the config sets is checked nowhere. -/
namespace Domiform
open Library Relation

/-- What decides where a command ends up: the slot of every device, the slots that echo, and what
the scenes stand for. -/
structure House where
  bindings : HashMap DeviceId AdapterIdx
  echoes : List Bool
  scenes : HashMap SceneId (List Command)

/-- A brightness above 100 would be echoed, now or further down a scene. -/
inductive Overbright (w : House) : Command → Prop
  | echoed {device : DeviceId} {value : UInt8} {transition : Option Millis} {i : ℕ}
      (out : 100 < value.toNat) (bound : w.bindings.lookup device = some (i+1))
      (echo : w.echoes[i]? = some true) : Overbright w (.setBrightness device value transition)
  | expanded {scene : SceneId} {cmds : List Command} {cmd : Command}
      (found : w.scenes.lookup scene = some cmds) (mem : cmd ∈ cmds) (inner : Overbright w cmd) :
      Overbright w (.activateScene scene)

/-- Relative commands resolve to a level between 0 and 100. -/
theorem Engine.toNat_clampLevel_le (x : ℤ) : (clampLevel x).toNat ≤ 100 := by
  have h : (max 0 (min x 100)).toNat = min x.toNat 100 := by omega
  rw [clampLevel,h]
  exact toNat_min_le x.toNat

theorem not_overbright_resolve {A N : Type} {w : House} (e : Engine A N) {cmd : Command}
    (ok : ¬Overbright w cmd) : ¬Overbright w (e.resolveImplicitStateCommand cmd) := by
  cases cmd with
  | toggleSwitch device =>
    simp only [Engine.resolveImplicitStateCommand]
    split
    · rintro ⟨⟩
    · exact ok
  | decreaseBrightness device value | increaseBrightness device value =>
    simp only [Engine.resolveImplicitStateCommand]
    split
    · rintro (⟨out,-,-⟩ | _)
      exact absurd (Engine.toNat_clampLevel_le _) (not_le.mpr out)
    · exact ok
  | _ => exact ok

/-- A request within its range asks for no more than 100. -/
theorem not_overbright_of_requested {w : House} {device : DeviceId} {desired : Desired}
    {cmd : Command} (canonical : (Event.requestedChange device desired).Canonical)
    (h : Engine.commandForRequestedChange device desired = some cmd) : ¬Overbright w cmd := by
  cases desired with
  | set s =>
    cases s with
    | brightness v =>
      cases h
      rintro (⟨out,-,-⟩ | _)
      exact absurd canonical (not_le.mpr out)
    | _ => cases h <;> rintro ⟨⟩
  | toggle | sendIr code =>
    cases h
    rintro ⟨⟩
  | adjustBrightness delta =>
    simp only [Engine.commandForRequestedChange] at h
    split_ifs at h <;> cases h <;> rintro ⟨⟩

/-- What the config commands when the event is processed: all that the rules it fires hold, be it at
once or after their wait, or the scene it asks for. -/
inductive Engine.Orders {A N : Type} (e : Engine A N) (ev : Event) (cmd : Command) : Prop
  | fired (r : Rule) (mem : r ∈ e.rules) (immediate : r.forDuration = none)
      (matched : r.trigger.matchesEvent ev (e.prior ev) = true)
      (holds : r.condition.eval (fold e.state ev) = .true) (ordinary : e.intercepts ev = false)
      (report : isRequest ev = false) (order : cmd ∈ r.commands)
  | waited (key : TimerKey) (r : Rule) (timer : ev = .timerElapsed key)
      (waiting : e.pendingFor.lookup r.id = some ⟨key⟩) (fresh : e.retries.lookup key = none)
      (own : key.startsWith forKeyPrefix = true)
      (found : e.rules.find? (fun r' => r'.id == r.id) = some r)
      (sustained : r.trigger.predicateHolds e.state = true) (order : cmd ∈ r.commands)
  | scene (scene : SceneId) (asked : ev = .requestedScene scene) (order : cmd = .activateScene scene)

/-- What is queued has no say in it. -/
theorem Engine.Orders.of_queue {A N : Type} {e : Engine A N} {ev : Event} {cmd : Command}
    {queue queue' : List (Event × ℕ)} (h : { e with queue := queue }.Orders ev cmd) :
    { e with queue := queue' }.Orders ev cmd := by
  cases h with
  | fired r mem immediate matched holds ordinary report order =>
    exact .fired r mem immediate matched holds ordinary report order
  | waited key r timer waiting fresh own found sustained order =>
    exact .waited key r timer waiting fresh own found sustained order
  | scene scene asked order => exact .scene scene asked order

section House
variable {T C Z : Type} {π : HashOrder} {w : House}

namespace Engine
variable {e e' : HouseEngine T C Z}

def house (e : HouseEngine T C Z) : House :=
  ⟨e.deviceToAdapter,e.adapters.rest.map SouthboundAdapter.isEcho,e.scenes⟩

/-- All an engine of this house holds is within its range, down to what its consumers have queued;
and no retry waits to be echoed. -/
structure Calibrated (w : House) (e : HouseEngine T C Z) : Prop where
  house : e.house = w
  state : ∀ d k v, e.state.get d k = some v → v.Canonical
  queue : ∀ x ∈ e.queue, x.1.Canonical
  retries : ∀ key p, e.retries.lookup key = some p → ¬Overbright w p.command
  northbound : ∀ nb ∈ e.northbound, NorthboundCanonical nb.adapter

namespace Calibrated

theorem of_eq (h : Calibrated w e) (house : e'.house = e.house) (state : e'.state = e.state)
    (queue : e'.queue = e.queue) (retries : e'.retries = e.retries)
    (northbound : e'.northbound = e.northbound) : Calibrated w e' := by
  refine ⟨house.trans h.house,?_,?_,?_,?_⟩
  · rw [state]
    exact h.state
  · rw [queue]
    exact h.queue
  · rw [retries]
    exact h.retries
  · rw [northbound]
    exact h.northbound

theorem notify (h : Calibrated w e) (n : Notice) : Calibrated w (e.notify n) :=
  h.of_eq rfl rfl rfl rfl rfl

theorem enqueueAll (h : Calibrated w e) {evs : List Event} (hc : ∀ ev ∈ evs, ev.Canonical)
    (depth : ℕ) : Calibrated w (e.enqueueAll evs depth) := by
  refine { h with queue := List.forall_mem_append.mpr ⟨h.queue,fun x hx => ?_⟩ }
  obtain ⟨ev,hev,rfl⟩ := List.mem_map.mp hx
  exact hc ev hev

theorem foldl {α : Type} {f : HouseEngine T C Z → α → HouseEngine T C Z}
    (hf : ∀ e a, Calibrated w e → Calibrated w (f e a)) (xs : List α) (h : Calibrated w e) :
    Calibrated w (xs.foldl f e) := by
  induction xs generalizing e with
  | nil => exact h
  | cons a xs ih => exact ih (hf e a h)

theorem giveUp (h : Calibrated w e) (cmd : Command) (reason : String)
    (attempts serial depth : ℕ) : Calibrated w (e.giveUp cmd reason attempts serial depth) := by
  have hr : Calibrated w ((e.notify (.commandFailed cmd reason attempts)).record (.gaveUp serial)) :=
    h.of_eq rfl rfl rfl rfl rfl
  have hc : ∀ ev ∈ [Event.commandFailed cmd reason attempts], ev.Canonical := by
    intro ev hev
    rw [List.mem_singleton.mp hev]
    trivial
  exact hr.enqueueAll hc (nextDepth depth)

theorem scheduleRetry (h : Calibrated w e) {cmd : Command} (ok : ¬Overbright w cmd)
    (failedAttempt serial : ℕ) : Calibrated w (e.scheduleRetry cmd failedAttempt serial) := by
  refine ⟨h.house,h.state,h.queue,fun key p hp => ?_,h.northbound⟩
  change (e.retries.insert _ _).lookup key = some p at hp
  rw [HashMap.lookup_insert] at hp
  split_ifs at hp
  · cases hp
    exact ok
  · exact h.retries key p hp

theorem handleOutcome (h : Calibrated w e) {cmd : Command} (ok : ¬Overbright w cmd)
    {outcome : DispatchOutcome} (answer : ∀ evs, outcome = .ok evs → ∀ ev ∈ evs, ev.Canonical)
    (attempt serial depth : ℕ) :
    Calibrated w (e.handleOutcome outcome cmd attempt serial depth) := by
  cases outcome with
  | ok evs => exact h.enqueueAll (answer evs rfl) _
  | transient reason =>
    simp only [Engine.handleOutcome]
    split_ifs
    · exact (h.notify _).scheduleRetry ok _ _
    · exact (h.notify _).giveUp _ _ _ _ _
  | permanent reason => exact (h.notify _).giveUp _ _ _ _ _

theorem armForTimer (h : Calibrated w e) (rule : RuleId) (after : Millis) :
    Calibrated w (e.armForTimer rule after) := by
  unfold Engine.armForTimer
  split <;> exact h.of_eq rfl rfl rfl rfl rfl

theorem cancelForTimer (h : Calibrated w e) (rule : RuleId) :
    Calibrated w (e.cancelForTimer rule) := by
  unfold Engine.cancelForTimer
  split
  · exact h.of_eq rfl rfl rfl rfl rfl
  · exact h

theorem fan (h : Calibrated w e) (device : DeviceId) (state : CapabilityState) :
    Calibrated w (e.fanStateFolded device state) := by
  refine { h with northbound := fun nb hm => ?_ }
  obtain ⟨nb',hm',rfl⟩ := List.mem_map.mp hm
  exact (h.northbound nb' hm').stateFolded device state

theorem refan (h : Calibrated w e) (device : DeviceId) (kind : CapabilityKind) :
    Calibrated w (e.refan device kind) := by
  unfold Engine.refan
  split
  · exact h.fan _ _
  · exact h

/-- A report within its range is folded into a store within its ranges. -/
theorem foldState (h : Calibrated w e) {ev : Event} (hc : ev.Canonical) :
    Calibrated w (e.foldState ev) := by
  cases ev with
  | stateReported device state =>
    have hf := h.fan device state
    refine { hf with state := fun d k v hv => ?_ }
    change (e.state.set device state).get d k = some v at hv
    rw [StateStore.get_set] at hv
    split_ifs at hv
    · cases hv
      exact hc
    · exact h.state d k v hv
  | _ => exact h

end Calibrated

variable [MqttTransport T] [MatterController C] [ZwaveClient Z]

section Answers
variable {t t' : AdapterTable (SouthboundAdapter T C Z)} {idx : AdapterIdx} {cmd : Command}
  {now : Millis} {outcome : DispatchOutcome}

/-- Calling an adapter makes it no echo, nor ends its being one. -/
theorem echoes_set {rest : List (SouthboundAdapter T C Z)} {i : ℕ} {a : SouthboundAdapter T C Z}
    (ha : rest[i]? = some a) (cmd : Command) (now : Millis) :
    (rest.set i (a.dispatch cmd now).2).map SouthboundAdapter.isEcho =
      rest.map SouthboundAdapter.isEcho := by
  rw [List.map_set]
  apply List.ext_getElem?
  intro j
  rw [List.getElem?_set]
  split_ifs with hj hlt
  · rw [← hj,List.getElem?_map,ha]
    exact congrArg some (a.isEcho_dispatch cmd now)
  · rw [List.getElem?_eq_none (by omega)]
  · rfl

theorem echoes_of_dispatch (handed : t.dispatch idx cmd now = some (outcome,t')) :
    t'.rest.map SouthboundAdapter.isEcho = t.rest.map SouthboundAdapter.isEcho := by
  cases idx with
  | zero =>
    cases handed
    rfl
  | succ i =>
    simp only [AdapterTable.dispatch] at handed
    split at handed
    · rename_i a ha
      cases handed
      exact echoes_set ha cmd now
    · cases handed

/-- No adapter answers a command that is not overbright with a report out of range. -/
theorem answer_canonical (ok : ¬Overbright w cmd)
    (echoes : t.rest.map SouthboundAdapter.isEcho = w.echoes)
    (bound : cmd.targetDevice.bind w.bindings.lookup = some idx)
    (handed : t.dispatch idx cmd now = some (outcome,t')) :
    ∀ evs, outcome = .ok evs → ∀ ev ∈ evs, ev.Canonical := by
  intro evs he
  subst he
  cases idx with
  | zero =>
    simp only [AdapterTable.dispatch,SchedulerAdapter.dispatch_fst] at handed
    cases handed
    exact List.forall_mem_nil _
  | succ i =>
    simp only [AdapterTable.dispatch] at handed
    split at handed
    · rename_i a ha
      have answer := (Prod.mk.inj (Option.some.inj handed)).1
      refine SouthboundAdapter.dispatch_canonical answer fun echo s hs => ?_
      have hi : w.echoes[i]? = some true := by
        rw [← echoes,List.getElem?_map,ha,← echo]
        rfl
      cases cmd with
      | setBrightness device value transition =>
        cases hs
        exact not_lt.mp fun out => ok (.echoed out bound hi)
      | _ => cases hs <;> trivial
    · cases handed

end Answers

theorem dispatchDevice_calibrated {cmd : Command} {attempt depth : ℕ} {origin : Option ℕ}
    (ok : ¬Overbright w cmd) (hd : dispatchDevice cmd attempt origin depth e = .ok e')
    (h : Calibrated w e) : Calibrated w e' := by
  have hi : Calibrated w (e.issue cmd origin).2 := by
    cases origin <;> exact h.of_eq rfl rfl rfl rfl rfl
  have hr := dispatchDevice_routed hd
  generalize (e.issue cmd origin).2 = e₁ at hr hi
  have hb : e₁.deviceToAdapter = w.bindings := congrArg House.bindings hi.house
  cases hr with
  | bound idx outcome adapters bound handed =>
    rw [hb] at bound
    have answer := answer_canonical ok (congrArg House.echoes hi.house) bound handed
    have handed : Calibrated w ((e₁.handOver idx cmd adapters).record
        (.handed idx cmd attempt (e.issue cmd origin).1 outcome)) := by
      refine { hi with house := Eq.trans (congrArg (House.mk _ · _) ?_) hi.house }
      exact echoes_of_dispatch handed
    exact handed.handleOutcome ok answer _ _ _
  | unbound unbound => exact hi.handleOutcome ok (by rintro evs ⟨⟩) _ _ _

/-- Dispatching keeps to the ranges, through every scene. -/
theorem dispatchAt_calibrated {fuel attempt depth : ℕ} {cmd : Command} {origin : Option ℕ}
    (ok : ¬Overbright w cmd) (hd : dispatchAt fuel cmd attempt origin depth e = .ok e')
    (h : Calibrated w e) : Calibrated w e' := by
  induction fuel generalizing cmd attempt origin e e' with
  | zero => cases hd
  | succ fuel ih =>
    have hok := not_overbright_resolve e ok
    rw [dispatchAt] at hd
    generalize e.resolveImplicitStateCommand cmd = c at hd hok
    dsimp only at hd
    split at hd
    · rename_i scene
      split at hd
      · rename_i cmds hl
        have found : w.scenes.lookup scene = some cmds := by
          rw [← h.house]
          exact hl
        refine foldlM_ok_induct (I := Calibrated w) ?_ ((h.notify _).notify _) hd
        intro c hc b b' hb hd
        exact ih (fun inner => hok (.expanded found hc inner)) hd hb
      · cases hd
        exact h.notify _
    · cases hd
      exact h.of_eq rfl rfl rfl rfl rfl
    · cases hd
      exact h.of_eq rfl rfl rfl rfl rfl
    · exact dispatchDevice_calibrated hok hd (h.notify _)

theorem fire_calibrated {fuel depth : ℕ} {rule : Rule} (ok : ∀ cmd ∈ rule.commands, ¬Overbright w cmd)
    (hf : fire fuel rule depth e = .ok e') (h : Calibrated w e) : Calibrated w e' := by
  have firing : Calibrated w (e.record (.firing rule.id e.state)) := h.of_eq rfl rfl rfl rfl rfl
  rw [fire,dispatchAll] at hf
  refine foldlM_ok_induct (I := Calibrated w) ?_ firing hf
  intro cmd hc b b' hb hd
  exact dispatchAt_calibrated (ok cmd hc) hd hb

theorem runFired_calibrated {fuel depth : ℕ} {fired : List Rule}
    (ok : ∀ r ∈ fired, r.forDuration = none → ∀ cmd ∈ r.commands, ¬Overbright w cmd)
    (hf : runFired fuel fired depth e = .ok e') (h : Calibrated w e) : Calibrated w e' := by
  refine runFired_induct (fun r _ after _ b hb => ?_) (fun r hm hn b b' hb hd => ?_) hf h
  · exact hb.armForTimer r.id after
  · exact fire_calibrated (ok r hm hn) hd hb

theorem react_calibrated {fuel depth : ℕ} {ev : Event} (hc : ev.Canonical)
    (ok : ∀ r ∈ e.rules, r.forDuration = none → r.trigger.matchesEvent ev (e.prior ev) = true →
      r.condition.eval (fold e.state ev) = .true → ∀ cmd ∈ r.commands, ¬Overbright w cmd)
    (hr : react π fuel ev depth e = .ok e') (h : Calibrated w e) : Calibrated w e' := by
  obtain ⟨e₂,h₂,hfired,hr⟩ := react_cases hr
  have reverted : Calibrated w e₂ := by
    rcases h₂ with rfl | rfl
    · exact h.foldState hc
    · exact Calibrated.foldl (fun _ rule he => he.cancelForTimer rule) _ (h.foldState hc)
  have considered : Calibrated w (e₂.considerRules ev (e.prior ev)).1 :=
    Calibrated.foldl (fun _ _ he => he.notify _) _ reverted
  refine runFired_calibrated (fun r hm hn => ?_) hr considered
  obtain ⟨hm,matched,holds⟩ := (hfired r).mp hm
  exact ok r hm hn matched holds

/-- Processing an event within its range keeps to the ranges, unless the config answers it with an
overbright command. -/
theorem process_calibrated {fuel depth : ℕ} {ev : Event} (hc : ev.Canonical)
    (ok : depth ≤ e.maxCascadeDepth → ∀ cmd, e.Orders ev cmd → ¬Overbright w cmd)
    (hp : process π fuel ev depth e = .ok e') (h : Calibrated w e) : Calibrated w e' := by
  have received : Calibrated w (e.received ev depth) := h.notify _
  cases process_processed hp with
  | dropped ev deep => exact h.notify _
  | retried key p e' le pending hd =>
    refine dispatchAt_calibrated (h.retries key p pending) hd { received with retries := ?_ }
    intro k q hq
    rw [HashMap.lookup_erase] at hq
    split_ifs at hq
    exact h.retries k q hq
  | elapsed key e' le fresh own hd =>
    obtain rfl | ⟨id,waiting,hd⟩ := fireElapsedFor_cases hd
    · exact received
    have ended : Calibrated w { e.received (.timerElapsed key) depth with
        pendingFor := e.pendingFor.erase id } := received.of_eq rfl rfl rfl rfl rfl
    obtain rfl | ⟨rule,rfl,found,sustained,hd⟩ := hd
    · exact ended
    · refine fire_calibrated (fun cmd hcmd => ok le cmd ?_) hd ended
      exact .waited key rule rfl waiting fresh own found sustained hcmd
  | changed device desired e' le hd =>
    simp only [requestChange] at hd
    split at hd
    · rename_i cmd hcmd
      obtain ⟨e₁,h₁,h₂⟩ := bind_ok_iff.mp hd
      cases h₂
      exact (dispatchAt_calibrated (not_overbright_of_requested hc hcmd) h₁ received).refan _ _
    · cases hd
      exact received.refan _ _
  | activated scene e' le hd => exact dispatchAt_calibrated (ok le _ (.scene scene rfl rfl)) hd received
  | reacted ev e' le ordinary report hd =>
    refine react_calibrated hc (fun r hr hn matched holds cmd hcmd => ok le cmd ?_) hd received
    exact .fired r hr hn matched holds ordinary report hcmd

/-- What a tick brings in is within its range: the four decoders, the clock and the consumers. -/
theorem Calibrated.tick (h : Calibrated w e) (π : HashOrder) : Calibrated w (e.tickAdapters π) := by
  have ticked : ∀ ev ∈ (e.adapters.tick π (e.trace.length+1) e.now).1 ++
      e.northbound.flatMap (fun nb => (nb.tick e.now).1), ev.Canonical := by
    intro ev hev
    simp only [AdapterTable.tick,List.mem_append,List.mem_flatMap] at hev
    rcases hev with (hev | ⟨a,-,hev⟩) | ⟨nb,hm,hev⟩
    · obtain ⟨key,-,rfl⟩ := List.mem_map.mp hev
      trivial
    · exact a.tick_canonical e.now ev hev
    · exact ((h.northbound nb hm).tick e.now).1 ev hev
  have idle : Calibrated w { e.record .ticked with
      adapters := (e.adapters.tick π (e.trace.length+1) e.now).2
      northbound := e.northbound.map fun nb => (nb.tick e.now).2 } := by
    refine { h with house := ?_,northbound := fun nb hm => ?_ }
    · refine Eq.trans (congrArg (House.mk _ · _) ?_) h.house
      rw [AdapterTable.tick,List.map_map]
      exact List.map_congr_left fun a _ => a.isEcho_tick e.now
    · obtain ⟨nb',hm',rfl⟩ := List.mem_map.mp hm
      exact ((h.northbound nb' hm').tick e.now).2
  have hq := idle.enqueueAll ticked 0
  refine hq.of_eq rfl rfl ?_ rfl rfl
  simp [tickAdapters,record]

omit [MqttTransport T] [MatterController C] [ZwaveClient Z] in
theorem Calibrated.sync (h : Calibrated w e) (π : HashOrder) :
    Calibrated w (e.syncNorthboundStartupState π) := by
  refine { h with northbound := fun nb hm => ?_ }
  rw [sync_northbound] at hm
  obtain ⟨nb',hm',rfl⟩ := List.mem_map.mp hm
  have heard (fans : List (DeviceId × CapabilityState)) (nb : Northbound _)
      (hn : NorthboundCanonical nb.adapter) : NorthboundCanonical (nb.hear fans).adapter := by
    induction fans generalizing nb with
    | nil => exact hn
    | cons x fans ih => exact ih _ (hn.stateFolded x.1 x.2)
  exact heard _ nb' (h.northbound nb' hm')

omit [MqttTransport T] [MatterController C] [ZwaveClient Z] in
theorem Fresh.calibrated (h : e.Fresh) (hn : ∀ nb ∈ e.northbound, NorthboundCanonical nb.adapter) :
    Calibrated e.house e := by
  refine ⟨rfl,fun d k v hv => ?_,?_,fun key p hp => ?_,hn⟩
  · rw [h.state,StateStore.get_empty] at hv
    cases hv
  · rw [h.queue]
    exact List.forall_mem_nil _
  · have hr : e.retries = ∅ := congrArg Timers.retries h.timers
    rw [hr] at hp
    cases hp

/-! ### An overbright command is echoed -/

/-- A brightness above 100 is on the bus. -/
def Glaring (e : HouseEngine T C Z) : Prop :=
  ∃ device value depth, (.stateReported device (.brightness value),depth) ∈ e.queue ∧
    100 < value.toNat

omit [MqttTransport T] [MatterController C] [ZwaveClient Z] in
theorem Glaring.append (h : e.Glaring) {evs : List (Event × ℕ)} (hq : e'.queue = e.queue ++ evs) :
    e'.Glaring := by
  obtain ⟨device,value,depth,hm,out⟩ := h
  refine ⟨device,value,depth,?_,out⟩
  rw [hq]
  exact List.mem_append_left _ hm

omit [MqttTransport T] [MatterController C] [ZwaveClient Z] in
theorem foldl_house {α : Type} {f : HouseEngine T C Z → α → HouseEngine T C Z}
    (hf : ∀ e a, (f e a).house = e.house) (xs : List α) (e : HouseEngine T C Z) :
    (xs.foldl f e).house = e.house := by
  induction xs generalizing e with
  | nil => rfl
  | cons a xs ih => exact (ih (f e a)).trans (hf e a)

theorem dispatchDevice_house {cmd : Command} {attempt depth : ℕ} {origin : Option ℕ}
    (hd : dispatchDevice cmd attempt origin depth e = .ok e') : e'.house = e.house := by
  have hf := dispatchDevice_dispatched hd
  have echoes : e'.adapters.rest.map SouthboundAdapter.isEcho =
      e.adapters.rest.map SouthboundAdapter.isEcho := by
    obtain hr | ⟨i,a,now,ha,hr⟩ := dispatchDevice_rest hd
    · rw [hr]
    · rw [hr]
      exact echoes_set ha cmd now
  rw [house,house,hf.deviceToAdapter,hf.scenes,echoes]

theorem acts_house {user : Command → Prop} {depth : ℕ} (h : ReflTransGen (Act user depth) e e') :
    e'.house = e.house := by
  induction h with
  | refl => rfl
  | tail _ act ih =>
    cases act with
    | dispatched | expanded | timer => exact ih
    | device cmd target e' hd => exact (dispatchDevice_house hd).trans ih

theorem dispatchAt_house {fuel depth : ℕ} {cmd : Command}
    (hd : dispatchAt fuel cmd 1 none depth e = .ok e') : e'.house = e.house :=
  acts_house (dispatchAt_acts (fun _ => True) trivial (fun _ _ _ _ _ => trivial) hd)

theorem fire_house {fuel depth : ℕ} {rule : Rule} (hf : fire fuel rule depth e = .ok e') :
    e'.house = e.house := by
  have acts := dispatchAll_acts (fun _ => True) (fun _ _ => trivial) (fun _ _ _ _ _ => trivial) hf
  exact (acts_house acts).trans rfl

/-- The echo of an overbright command is on the bus once it was dispatched. -/
theorem glaring_of_overbright {fuel depth : ℕ} {cmd : Command} (overbright : Overbright w cmd)
    (hw : e.house = w) (hd : dispatchAt fuel cmd 1 none depth e = .ok e') : e'.Glaring := by
  induction overbright generalizing fuel e e' with
  | @echoed device value transition i out bound echo =>
    cases fuel with
    | zero => cases hd
    | succ fuel =>
      rw [dispatchAt_device rfl] at hd
      subst hw
      obtain ⟨a,ha,hecho⟩ : ∃ a, e.adapters.rest[i]? = some a ∧ a.isEcho = true := by
        rw [house,List.getElem?_map] at echo
        exact Option.map_eq_some_iff.mp echo
      have answer : (Adapter.dispatch a (.setBrightness device value transition) e.now).1 =
          .ok [.stateReported device (.brightness value)] := by
        cases a with
        | virtual a | mock a => rfl
        | _ => cases hecho
      have handed : e.adapters.dispatch (i+1) (.setBrightness device value transition) e.now =
          some (.ok [.stateReported device (.brightness value)],{ e.adapters with
            rest := e.adapters.rest.set i
              (Adapter.dispatch a (.setBrightness device value transition) e.now).2 }) := by
        simp only [AdapterTable.dispatch,ha,answer]
      have routed : dispatchDevice (.setBrightness device value transition) 1 none depth
          (e.notify (.commandDispatched (.setBrightness device value transition) depth)) = .ok _ :=
        dispatchDevice_of_bound bound handed
      cases routed.symm.trans hd
      exact ⟨device,value,nextDepth depth,List.mem_append_right _ (List.mem_singleton_self _),out⟩
  | @expanded scene cmds c found mem inner ih =>
    cases fuel with
    | zero => cases hd
    | succ fuel =>
      have hl : e.scenes.lookup scene = some cmds := by
        rw [← hw] at found
        exact found
      rw [dispatchAt] at hd
      have hn : (e.notify (.commandDispatched (.activateScene scene) depth)).scenes.lookup scene =
          some cmds := hl
      simp only [resolveImplicitStateCommand,hn] at hd
      refine foldlM_ok_reach (I := fun b => b.house = w) (J := Glaring) mem ?_ ?_ ?_ ?_ hd
      · exact fun c _ b b' hb hd => (dispatchAt_house hd).trans hb
      · exact fun b b' hb hd => ih hb hd
      · intro c _ b b' hb hd
        obtain ⟨evs,hq,-⟩ := (dispatchAt_frame hd).queue
        exact hb.append hq
      · exact hw

theorem glaring_of_fire {fuel depth : ℕ} {rule : Rule} {cmd : Command}
    (hcmd : cmd ∈ rule.commands) (overbright : Overbright w cmd) (hw : e.house = w)
    (hf : fire fuel rule depth e = .ok e') : e'.Glaring := by
  rw [fire,dispatchAll] at hf
  refine foldlM_ok_reach (I := fun b => b.house = w) (J := Glaring) hcmd ?_ ?_ ?_ ?_ hf
  · exact fun c _ b b' hb hd => (dispatchAt_house hd).trans hb
  · exact fun b b' hb hd => glaring_of_overbright overbright hb hd
  · intro c _ b b' hb hd
    obtain ⟨evs,hq,-⟩ := (dispatchAt_frame hd).queue
    exact hb.append hq
  · exact hw

theorem glaring_of_runFired {fuel depth : ℕ} {fired : List Rule} {rule : Rule} {cmd : Command}
    (hm : rule ∈ fired) (immediate : rule.forDuration = none) (hcmd : cmd ∈ rule.commands)
    (overbright : Overbright w cmd) (hw : e.house = w)
    (hf : runFired fuel fired depth e = .ok e') : e'.Glaring := by
  have armed : (armAll fired e).house = w := by
    refine armAll_induct (I := fun b => b.house = w) fired (fun _ _ _ _ b hb => ?_) hw
    unfold armForTimer
    split <;> exact hb
  rw [runFired_eq_foldlM] at hf
  refine foldlM_ok_reach (x := rule) (I := fun b => b.house = w) (J := Glaring) ?_ ?_ ?_ ?_
    armed hf
  · exact List.mem_filter.mpr ⟨hm,Option.isNone_iff_eq_none.mpr immediate⟩
  · exact fun r _ b b' hb hd => (fire_house hd).trans hb
  · exact fun b b' hb hd => glaring_of_fire hcmd overbright hb hd
  · intro r _ b b' hb hd
    have hi : Internal (fun _ => True) depth b b' := .of_fire trivial hd
    obtain ⟨evs,hq,-⟩ := hi.queue
    exact hb.append hq

/-- An event the config answers with an overbright command puts its echo on the bus. -/
theorem process_glaring {fuel depth : ℕ} {ev : Event} {cmd : Command} (keyed : e.Keyed)
    (distinct : e.RulesDistinct) (le : depth ≤ e.maxCascadeDepth) (order : e.Orders ev cmd)
    (overbright : Overbright e.house cmd) (hp : process π fuel ev depth e = .ok e') :
    e'.Glaring := by
  cases order with
  | fired r mem immediate matched holds ordinary report order =>
    cases process_processed hp with
    | dropped ev deep => omega
    | retried key p e' le pending hd => simp [intercepts,pending] at ordinary
    | elapsed key e' le fresh own hd => simp [intercepts,own] at ordinary
    | changed | activated => cases report
    | reacted ev e' le ordinary report hd =>
      obtain ⟨e₂,h₂,hfired,hd⟩ := react_cases hd
      have hm := (hfired r).mpr ⟨mem,matched,holds⟩
      refine glaring_of_runFired hm immediate order overbright ?_ hd
      have folded : ((e.received ev depth).foldState ev).house = e.house := by cases ev <;> rfl
      have reverted : e₂.house = e.house := by
        rcases h₂ with rfl | rfl
        · exact folded
        · refine (foldl_house (fun e rule => ?_) _ _).trans folded
          unfold cancelForTimer
          split <;> rfl
      rw [considerRules_fst]
      exact reverted
  | waited key r timer waiting fresh own found sustained order =>
    subst timer
    have received : (e.received (.timerElapsed key) depth).Keyed := keyed.of_eq rfl rfl rfl rfl
    have holds : r.trigger.predicateHolds (e.received (.timerElapsed key) depth).state = true :=
      sustained
    rw [process_of_waiting π fuel keyed le waiting,fireElapsedFor_of_waiting π fuel received distinct
      (List.mem_of_find?_eq_some found) waiting,if_pos holds] at hp
    refine glaring_of_fire order overbright ?_ hp
    rfl
  | scene scene asked order =>
    subst asked order
    cases process_processed hp with
    | dropped ev deep => omega
    | activated scene e' le hd =>
      refine glaring_of_overbright overbright ?_ hd
      rfl
    | reacted ev e' le ordinary report hd => cases report

end Engine

/-- The config answers the next event with nothing overbright. -/
def Config.Dimmed (c : Config (SouthboundAdapter T C Z) (RestApiAdapter ⊕ MockNorthbound)) : Prop :=
  ∀ ev depth rest, c.engine.queue = (ev,depth) :: rest → depth ≤ c.engine.maxCascadeDepth →
    ∀ cmd, c.engine.Orders ev cmd → ¬Overbright c.engine.house cmd

variable [MqttTransport T] [MatterController C] [ZwaveClient Z]
  {host : Host (RestApiAdapter ⊕ MockNorthbound)}
  {c c' : Config (SouthboundAdapter T C Z) (RestApiAdapter ⊕ MockNorthbound)}

theorem Step.calibrated (injected : ∀ ev, host.injects ev → ev.Canonical)
    (registered : ∀ n, host.registers n → NorthboundCanonical n) (dimmed : c.Dimmed)
    (step : Step π host c c') (h : c.engine.Calibrated w) : c'.engine.Calibrated w := by
  cases step with
  | @start e p =>
    have started : (e.record .started).Calibrated w := h.of_eq rfl rfl rfl rfl rfl
    exact started.tick π
  | synced => exact h.sync π
  | inject ev may =>
    have hc : ∀ x ∈ [ev], x.Canonical := by
      intro x hx
      rw [List.mem_singleton.mp hx]
      exact injected ev may
    exact h.enqueueAll hc 0
  | @advance e p dt =>
    have elapsed : (e.elapse dt).Calibrated w := h.of_eq rfl rfl rfl rfl rfl
    exact elapsed.tick π
  | addNorthbound n may =>
    refine { h with northbound := List.forall_mem_append.mpr ⟨h.northbound,fun nb hm => ?_⟩ }
    rw [List.mem_singleton.mp hm]
    exact registered n may
  | @process e e' p ev depth rest fuel next hp =>
    have hq : ∀ x ∈ (ev,depth) :: rest, x.1.Canonical := next ▸ h.queue
    have popped : ({ e with queue := rest } : HouseEngine T C Z).Calibrated w :=
      { h with queue := fun x hx => hq x (List.mem_cons_of_mem _ hx) }
    refine Engine.process_calibrated (hq _ List.mem_cons_self) (fun le cmd order => ?_) hp popped
    rw [← h.house]
    exact dimmed ev depth rest next le cmd (.of_queue order)

/-- A step that is not dimmed reports a brightness above 100. -/
theorem Step.glaring (keyed : c.engine.Keyed) (distinct : c.engine.RulesDistinct)
    (bad : ¬c.Dimmed) (step : Step π host c c') : c'.engine.Glaring := by
  simp only [Config.Dimmed,not_forall,not_not] at bad
  obtain ⟨ev,depth,rest,next,le,cmd,order,overbright⟩ := bad
  obtain ⟨fuel,hp⟩ := step.of_next next
  have popped : ({ c.engine with queue := rest } : HouseEngine T C Z).Keyed :=
    keyed.of_eq rfl rfl rfl rfl
  exact Engine.process_glaring popped distinct le (.of_queue order) overbright hp

/-- A run whose every step is dimmed. -/
abbrev DimmedRun (π : HashOrder) (host : Host (RestApiAdapter ⊕ MockNorthbound)) :
    Config (SouthboundAdapter T C Z) (RestApiAdapter ⊕ MockNorthbound) →
      Config (SouthboundAdapter T C Z) (RestApiAdapter ⊕ MockNorthbound) → Prop :=
  ReflTransGen fun c c' => Step π host c c' ∧ c.Dimmed

/-- As long as no step has the config dim a lamp to more than 100, all that is stored is within its
range; and the first step that does reports just that. -/
theorem canonical_ranges_hold
    {b : Builders (SouthboundAdapter T C Z) (RestApiAdapter ⊕ MockNorthbound)} {lib : Libraries}
    {raw : RawConfig} {cfg : CompiledConfig} (accepted : resolve lib π raw = .ok cfg)
    {e₀ : HouseEngine T C Z} (built : buildEngineFull b cfg = some e₀)
    (consumers : ∀ nb ∈ e₀.northbound, NorthboundCanonical nb.adapter)
    (injected : ∀ ev, host.injects ev → ev.Canonical)
    (registered : ∀ n, host.registers n → NorthboundCanonical n) {p : Phase} :
    (∀ c, DimmedRun π host ⟨e₀,p⟩ c → ∀ d k v, c.engine.state.get d k = some v → v.Canonical) ∧
      ∀ c c', Run π host ⟨e₀,p⟩ c → Step π host c c' → ¬c.Dimmed → ∃ device value depth,
        (.stateReported device (.brightness value),depth) ∈ c'.engine.queue ∧ 100 < value.toNat := by
  have hb := built_of_accepted accepted built
  refine ⟨fun c run => ?_,fun c c' run step bad => ?_⟩
  · have inv : c.engine.Calibrated e₀.house := by
      induction run with
      | refl => exact hb.fresh.calibrated consumers
      | tail _ step ih => exact step.1.calibrated injected registered step.2 ih
    exact inv.state
  · have distinct := (hb.rulesDistinct accepted).of_wiring (Run.wiring run)
    exact step.glaring (run.keyed hb.fresh) distinct bad

omit [MqttTransport T] [MatterController C] [ZwaveClient Z] in
/-- A config that never sets an echoed brightness above 100 is dimmed all along. -/
theorem Config.dimmed_of_house
    (rules : ∀ r ∈ c.engine.rules, ∀ cmd ∈ r.commands, ¬Overbright c.engine.house cmd)
    (scenes : ∀ scene, ¬Overbright c.engine.house (.activateScene scene)) : c.Dimmed := by
  intro ev depth rest next le cmd order
  cases order with
  | fired r mem immediate matched holds ordinary report order => exact rules r mem cmd order
  | waited key r timer waiting fresh own found sustained order =>
    exact rules r (List.mem_of_find?_eq_some found) cmd order
  | scene scene asked order =>
    rw [order]
    exact scenes scene

end House

/-! ### A virtual lamp, and a scene that sets it -/

def partyConfig (level : ℕ) : RawConfig where
  system := .default
  adapters := .single "bus" ⟨"virtual",.mapping []⟩
  devices := .single "lamp" ⟨"bus",none,none,["brightness"],.empty,none,none,none⟩
  scenes := .single "party" [.mapping [(.string "set_brightness",.mapping [
    (.string "device",.string "lamp"),(.string "value",.number (.posInt level))])]]
  schedules := .empty
  rules := .empty

def partyBuilders : Builders (SouthboundAdapter Empty Empty Empty)
    (RestApiAdapter ⊕ MockNorthbound) where
  build _ _ _ := .virtual {}
  buildNorthbound _ _ _ _ := none
  clock device _ _ := .clock (ClockAdapter.new device 0 ⟨fun _ => 0⟩ none)

/-- The scene as the engine holds it. -/
def partyScenes : HashMap SceneId (List Command) :=
  AList.insert (⟨0⟩ : SceneId) [.setBrightness ⟨0⟩ 40 none] ∅

/-- A host that asks for the scene, and for nothing else. -/
def partyHost : Host (RestApiAdapter ⊕ MockNorthbound) :=
  ⟨fun ev => ev = .requestedScene ⟨0⟩,fun _ => False⟩

theorem party_host_canonical {ev : Event} (h : partyHost.injects ev) : ev.Canonical := by
  obtain rfl : ev = .requestedScene ⟨0⟩ := h
  trivial

/-- At 40 the lamp stays within its range. -/
theorem modest_party_in_range : ∃ cfg e₀ c,
    resolve plainLibraries .identity (partyConfig 40) = .ok cfg ∧
      buildEngineFull partyBuilders cfg = some e₀ ∧ DimmedRun .identity partyHost ⟨e₀,.wired⟩ c ∧
      c.engine.state.get ⟨0⟩ .brightness = some (.brightness 40) ∧
      ∀ d k v, c.engine.state.get d k = some v → v.Canonical := by
  obtain ⟨cfg,e₀,h,hb,hq,hr,hs,hn,e₁,h₁,hq₁,hr₁,hs₁,e₂,h₂,hv⟩ : ∃ cfg e₀,
      resolve plainLibraries .identity (partyConfig 40) = .ok cfg ∧
        buildEngineFull partyBuilders cfg = some e₀ ∧ e₀.queue = [] ∧ e₀.rules = [] ∧
        e₀.scenes = partyScenes ∧
        e₀.northbound = [] ∧
        ∃ e₁, Engine.process .identity 3 (.requestedScene ⟨0⟩) 0
          { e₀.enqueue (.requestedScene ⟨0⟩) 0 with queue := [] } = .ok e₁ ∧
          e₁.queue = [(.stateReported ⟨0⟩ (.brightness 40),1)] ∧ e₁.rules = [] ∧
          e₁.scenes = e₀.scenes ∧
        ∃ e₂, Engine.process .identity 3 (.stateReported ⟨0⟩ (.brightness 40)) 1
          { e₁ with queue := [] } = .ok e₂ ∧
          e₂.state.get ⟨0⟩ .brightness = some (.brightness 40) :=
    ⟨_,_,rfl,rfl,rfl,rfl,rfl,rfl,_,rfl,rfl,rfl,rfl,_,rfl,rfl⟩
  have dimmed (e : HouseEngine Empty Empty Empty) (p : Phase) (hr : e.rules = [])
      (hs : e.scenes = partyScenes) : Config.Dimmed ⟨e,p⟩ := by
    refine Config.dimmed_of_house (fun r hm => ?_) fun scene hover => ?_
    · rw [hr] at hm
      cases hm
    · cases hover with
      | expanded found mem inner =>
        change e.scenes.lookup scene = _ at found
        rw [hs,partyScenes,HashMap.lookup_insert] at found
        split_ifs at found
        · cases found
          cases List.mem_singleton.mp mem
          cases inner with
          | echoed out => exact absurd out (by decide)
        · cases found
  have hn₀ : (e₀.enqueue (.requestedScene ⟨0⟩) 0).queue = [(.requestedScene ⟨0⟩,0)] := by
    rw [Engine.enqueue,hq]
    rfl
  have run : DimmedRun .identity partyHost ⟨e₀,.wired⟩ ⟨e₂,.wired⟩ :=
    ((ReflTransGen.single ⟨.inject _ rfl hq (by decide),dimmed e₀ _ hr hs⟩).tail
      ⟨.process 3 hn₀ h₁,dimmed _ _ hr hs⟩).tail
      ⟨.process 3 hq₁ h₂,dimmed e₁ _ hr₁ (hs₁.trans hs)⟩
  have consumers : ∀ nb ∈ e₀.northbound, NorthboundCanonical nb.adapter := by
    rw [hn]
    exact List.forall_mem_nil _
  exact ⟨cfg,e₀,_,h,hb,run,hv,(canonical_ranges_hold h hb consumers
    (fun _ => party_host_canonical) (fun _ hf => hf.elim)).1 _ run⟩

/-- At 200, which the config is accepted with, the store holds 200. -/
theorem wild_party_out_of_range : ∃ cfg e₀ c,
    resolve plainLibraries .identity (partyConfig 200) = .ok cfg ∧
      buildEngineFull partyBuilders cfg = some e₀ ∧ Run .identity partyHost ⟨e₀,.wired⟩ c ∧
      c.engine.queue = [] ∧ c.engine.state.get ⟨0⟩ .brightness = some (.brightness 200) ∧
      ¬(CapabilityState.brightness 200).Canonical := by
  obtain ⟨cfg,e₀,h,hb,hq,e,he,hv⟩ : ∃ cfg e₀,
      resolve plainLibraries .identity (partyConfig 200) = .ok cfg ∧
        buildEngineFull partyBuilders cfg = some e₀ ∧ e₀.queue = [] ∧
        ∃ e, e₀.inject .identity 3 (.requestedScene ⟨0⟩) = .ok e ∧
          e.state.get ⟨0⟩ .brightness = some (.brightness 200) := ⟨_,_,rfl,rfl,rfl,_,rfl,rfl⟩
  obtain ⟨run,idle⟩ := inject_run partyHost .wired rfl hq (by decide) he
  have out : 100 < (200 : UInt8).toNat := by decide
  exact ⟨cfg,e₀,_,h,hb,run,idle,hv,not_le.mpr out⟩

end Domiform
