import Domiform.Adapter

/-! The runtime: a single-threaded, ordered event loop.
Every operation takes the engine and returns the next one. `fuel` bounds the two loops that no
argument of the source bounds: the nesting of scenes and the draining of the queue. -/
namespace Domiform
open Library

def schedulerIdx : AdapterIdx := 0
def retryKeyPrefix : String := "__retry:"
def forKeyPrefix : String := "__for:"
def defaultMaxCascadeDepth : ℕ := 32

structure RetryPolicy where
  /-- Total dispatch attempts before giving up, the first included. -/
  maxAttempts : ℕ
  /-- Delay before the second attempt; it doubles with each later one. -/
  baseBackoff : Millis
  deriving DecidableEq

namespace RetryPolicy

def default : RetryPolicy := ⟨3,1000⟩

/-- Backoff after the given (1-based) attempt has failed, with `saturating_mul`. -/
def backoff (p : RetryPolicy) (failedAttempt : ℕ) : Millis :=
  let shift := min failedAttempt 16-1
  min (p.baseBackoff*2^shift) (2^64-1)

end RetryPolicy

/-- A command waiting for its next attempt. `serial` is a ghost: it numbers the command from its
first dispatch on, and no branch reads it. -/
structure PendingRetry where
  command : Command
  attempt : ℕ
  serial : ℕ
  deriving DecidableEq

/-- A rule waiting out its `for:` duration. -/
structure PendingFor where
  key : TimerKey
  deriving DecidableEq

/-- The callbacks of an observer. Observers return nothing, so they are kept as what they hear. -/
inductive Notice
  | dispatchFailed (command : Command) (reason : String) (transient : Bool) (attempt : ℕ)
  | retryScheduled (command : Command) (nextAttempt : ℕ) (delay : Millis)
  | commandFailed (command : Command) (reason : String) (attempts : ℕ)
  | cascadeDropped (event : Event) (depth : ℕ)
  | eventReceived (event : Event) (depth : ℕ)
  | stateFolded (device : DeviceId) (state : CapabilityState)
  | ruleConsidered (rule : RuleId) (truth : Truth) (fired : Bool)
  | commandDispatched (command : Command) (depth : ℕ)
  | sceneExpanded (scene : SceneId) (count : ℕ)
  deriving DecidableEq

/-- The timers of an engine at one moment. -/
structure Timers where
  scheduler : SchedulerAdapter
  retries : HashMap TimerKey PendingRetry
  pendingFor : HashMap RuleId PendingFor

/-- The history of a run: what the observers heard, and ghost entries for what they do not. -/
inductive Entry
  | notice (n : Notice)
  /-- `start` was called. -/
  | started
  /-- Every adapter is about to be ticked. -/
  | ticked
  /-- The commands of a rule that fired are about to be dispatched, against this store. -/
  | firing (rule : RuleId) (state : StateStore)
  /-- A timer command of a rule or a scene has reached the scheduler. -/
  | timed (command : Command) (before after : Timers)
  /-- A device command is dispatched for the first time. -/
  | issued (serial : ℕ) (command : Command)
  /-- A device command was handed to an adapter. -/
  | handed (idx : AdapterIdx) (command : Command) (attempt serial : ℕ) (outcome : DispatchOutcome)
  /-- A `CommandFailed` event was emitted for the command. -/
  | gaveUp (serial : ℕ)

/-- The adapter table. Slot 0 is the scheduler from `Engine::new` on, and slots are only added. -/
structure AdapterTable (A : Type) where
  scheduler : SchedulerAdapter
  rest : List A

/-- A registered northbound adapter; `received` is a ghost record of its `state_folded` calls. -/
structure Northbound (N : Type) where
  adapter : N
  received : List (DeviceId × CapabilityState)

structure Engine (A N : Type) where
  now : Millis
  /-- Each entry is `(event, causal_depth)`. -/
  queue : List (Event × ℕ)
  state : StateStore
  rules : List Rule
  adapters : AdapterTable A
  northbound : List (Northbound N)
  deviceToAdapter : HashMap DeviceId AdapterIdx
  scenes : HashMap SceneId (List Command)
  retry : RetryPolicy
  retries : HashMap TimerKey PendingRetry
  retryCounter : ℕ
  pendingFor : HashMap RuleId PendingFor
  forCounter : ℕ
  maxCascadeDepth : ℕ
  /-- Ghost: how many device commands have been issued. -/
  serials : ℕ
  /-- Ghost: whether a sum of times has wrapped. -/
  overflowed : Bool
  /-- Ghost: every call of an adapter's `dispatch`, the scheduler's included. -/
  dispatches : List (Millis × AdapterIdx × Command)
  /-- Ghost: the history, with the engine time of each entry. -/
  trace : List (Millis × Entry)

/-- Why a call does not return. -/
inductive Halt
  | outOfFuel
  /-- `self.adapters[idx]` is out of bounds. -/
  | noAdapter (idx : AdapterIdx)
  deriving DecidableEq

abbrev Exec (α : Type) := Except Halt α

namespace AdapterTable
variable {A : Type} [Adapter A]

/-- `self.adapters[idx].dispatch(cmd, now)`. -/
def dispatch (t : AdapterTable A) (idx : AdapterIdx) (cmd : Command) (now : Millis) :
    Option (DispatchOutcome × AdapterTable A) :=
  match idx with
  | 0 => some ((t.scheduler.dispatch cmd now).1,{ t with scheduler := (t.scheduler.dispatch cmd now).2 })
  | i+1 =>
    match t.rest[i]? with
    | some a => some ((Adapter.dispatch a cmd now).1,
        { t with rest := t.rest.set i (Adapter.dispatch a cmd now).2 })
    | none => none

def size (t : AdapterTable A) : ℕ := t.rest.length+1

def tick (π : HashOrder) (n : ℕ) (t : AdapterTable A) (now : Millis) :
    List Event × AdapterTable A :=
  ((t.scheduler.tick π n now).1 ++ t.rest.flatMap (fun a => (Adapter.tick a now).1),
    ⟨(t.scheduler.tick π n now).2,t.rest.map fun a => (Adapter.tick a now).2⟩)

end AdapterTable

namespace Northbound
variable {N : Type} [NorthboundAdapter N]

def stateFolded (nb : Northbound N) (device : DeviceId) (state : CapabilityState) : Northbound N :=
  ⟨NorthboundAdapter.stateFolded nb.adapter device state,nb.received ++ [(device,state)]⟩

def tick (nb : Northbound N) (now : Millis) : List Event × Northbound N :=
  ((Adapter.tick nb.adapter now).1,{ nb with adapter := (Adapter.tick nb.adapter now).2 })

end Northbound

namespace Engine
variable {A N : Type}

/-- `depth + 1` on `u32`. -/
def nextDepth (depth : ℕ) : ℕ := (depth+1) % 2^32

def new : Engine A N where
  now := 0
  queue := []
  state := .empty
  rules := []
  adapters := ⟨⟨∅⟩,[]⟩
  northbound := []
  deviceToAdapter := ∅
  scenes := ∅
  retry := .default
  retries := ∅
  retryCounter := 0
  pendingFor := ∅
  forCounter := 0
  maxCascadeDepth := defaultMaxCascadeDepth
  serials := 0
  overflowed := false
  dispatches := []
  trace := []

def addAdapter (e : Engine A N) (a : A) : Engine A N × AdapterIdx :=
  ({ e with adapters := { e.adapters with rest := e.adapters.rest ++ [a] } },
    e.adapters.rest.length+1)

def addNorthbound (e : Engine A N) (n : N) : Engine A N :=
  { e with northbound := e.northbound ++ [⟨n,[]⟩] }

def bindDevice (e : Engine A N) (device : DeviceId) (adapter : AdapterIdx) : Engine A N :=
  { e with deviceToAdapter := e.deviceToAdapter.insert device adapter }

def addRule (e : Engine A N) (rule : Rule) : Engine A N := { e with rules := e.rules ++ [rule] }

def addScene (e : Engine A N) (scene : SceneId) (commands : List Command) : Engine A N :=
  { e with scenes := e.scenes.insert scene commands }

def setRetryPolicy (e : Engine A N) (policy : RetryPolicy) : Engine A N :=
  { e with retry := policy }

def record (e : Engine A N) (x : Entry) : Engine A N := { e with trace := e.trace ++ [(e.now,x)] }

/-- Fan one notification out to every observer. -/
def notify (e : Engine A N) (n : Notice) : Engine A N := e.record (.notice n)

def enqueue (e : Engine A N) (ev : Event) (depth : ℕ) : Engine A N :=
  { e with queue := e.queue ++ [(ev,depth)] }

def enqueueAll (e : Engine A N) (evs : List Event) (depth : ℕ) : Engine A N :=
  { e with queue := e.queue ++ evs.map fun ev => (ev,depth) }

/-- Whether dispatching the command to the scheduler wraps a fire time. -/
def overflows (now : Millis) : Command → Bool
  | .scheduleTimer _ after => decide (2^64 ≤ now+after)
  | _ => false

/-- `self.adapters[SCHEDULER_IDX].dispatch(cmd, self.now)`, whose outcome carries no event. -/
def schedule (e : Engine A N) (cmd : Command) : Engine A N :=
  { e with
    adapters := { e.adapters with scheduler := (e.adapters.scheduler.dispatch cmd e.now).2 }
    overflowed := e.overflowed || overflows e.now cmd
    dispatches := e.dispatches ++ [(e.now,schedulerIdx,cmd)] }

def timers (e : Engine A N) : Timers := ⟨e.adapters.scheduler,e.retries,e.pendingFor⟩

/-- A timer command that went through `dispatch_at`. -/
def scheduleCommand (e : Engine A N) (cmd : Command) : Engine A N :=
  (e.schedule cmd).record (.timed cmd e.timers (e.schedule cmd).timers)

def commandForState (device : DeviceId) : CapabilityState → Option Command
  | .switch on => some (.setSwitch device on)
  | .brightness value => some (.setBrightness device value none)
  | .color r g b => some (.setColor device r g b none)
  | .colorTemperature mireds => some (.setColorTemperature device mireds none)
  | .occupancy _ | .battery _ | .temperature _ | .humidity _ | .illuminance _ | .power _
  | .contact _ | .waterLeak _ | .smoke _ | .timeOfDay _ | .sunUp _ => none

/-- Translate a consumer's intent into the command that achieves it. -/
def commandForRequestedChange (device : DeviceId) : Desired → Option Command
  | .set state => commandForState device state
  | .toggle => some (.toggleSwitch device)
  | .adjustBrightness delta =>
    if 0 < delta.toInt then some (.increaseBrightness device (UInt8.ofNat delta.toInt.natAbs))
    else if delta.toInt < 0 then some (.decreaseBrightness device (UInt8.ofNat delta.toInt.natAbs))
    else none
  | .sendIr code => some (.sendIrCode device code)

/-- `x.clamp(0, 100) as u8`. -/
def clampLevel (x : ℤ) : UInt8 := UInt8.ofNat (max 0 (min x 100)).toNat

/-- Resolve the relative commands against the known state. -/
def resolveImplicitStateCommand (e : Engine A N) (cmd : Command) : Command :=
  match cmd with
  | .toggleSwitch device =>
    match e.state.switchIs device with
    | some on => .setSwitch device !on
    | none => cmd
  | .decreaseBrightness device value =>
    match e.state.numValue device .brightness with
    | some brightness => .setBrightness device (clampLevel (brightness-value.toNat)) none
    | none => cmd
  | .increaseBrightness device value =>
    match e.state.numValue device .brightness with
    | some brightness => .setBrightness device (clampLevel (brightness+value.toNat)) none
    | none => cmd
  | _ => cmd

def giveUp (e : Engine A N) (cmd : Command) (reason : String) (attempts serial depth : ℕ) :
    Engine A N :=
  let e := e.notify (.commandFailed cmd reason attempts)
  (e.record (.gaveUp serial)).enqueue (.commandFailed cmd reason attempts) (nextDepth depth)

def retryKey (n : ℕ) : TimerKey := ⟨retryKeyPrefix ++ toString n⟩

def forKey (n : ℕ) : TimerKey := ⟨forKeyPrefix ++ toString n⟩

def scheduleRetry (e : Engine A N) (cmd : Command) (failedAttempt serial : ℕ) : Engine A N :=
  let nextAttempt := failedAttempt+1
  let delay := e.retry.backoff failedAttempt
  let e := { e with retryCounter := e.retryCounter+1 }
  let key := retryKey e.retryCounter
  let e := e.notify (.retryScheduled cmd nextAttempt delay)
  let e := { e with retries := e.retries.insert key ⟨cmd,nextAttempt,serial⟩ }
  e.schedule (.scheduleTimer key delay)

def handleOutcome (e : Engine A N) (outcome : DispatchOutcome) (cmd : Command)
    (attempt serial depth : ℕ) : Engine A N :=
  match outcome with
  | .ok evs => e.enqueueAll evs (nextDepth depth)
  | .transient reason =>
    let e := e.notify (.dispatchFailed cmd reason true attempt)
    if attempt < e.retry.maxAttempts then e.scheduleRetry cmd attempt serial
    else e.giveUp cmd reason attempt serial depth
  | .permanent reason =>
    let e := e.notify (.dispatchFailed cmd reason false attempt)
    e.giveUp cmd reason attempt serial depth

/-- Ghost: a fresh command gets the next serial, a retried one keeps its own. -/
def issue (e : Engine A N) (cmd : Command) : Option ℕ → ℕ × Engine A N
  | some serial => (serial,e)
  | none => (e.serials,{ e with serials := e.serials+1 }.record (.issued e.serials cmd))

/-- The adapters after the one at `idx` has been called. -/
def handOver (e : Engine A N) (idx : AdapterIdx) (cmd : Command) (adapters : AdapterTable A) :
    Engine A N :=
  { e with adapters := adapters,dispatches := e.dispatches ++ [(e.now,idx,cmd)] }

section Dispatch
variable [Adapter A]

/-- The last part of `dispatch_at`: route a device command to the bound adapter. -/
def dispatchDevice (cmd : Command) (attempt : ℕ) (origin : Option ℕ) (depth : ℕ)
    (e : Engine A N) : Exec (Engine A N) :=
  let (serial,e) := e.issue cmd origin
  match cmd.targetDevice.bind e.deviceToAdapter.lookup with
  | some idx =>
    match e.adapters.dispatch idx cmd e.now with
    | some (outcome,adapters) =>
      let e := (e.handOver idx cmd adapters).record (.handed idx cmd attempt serial outcome)
      .ok (e.handleOutcome outcome cmd attempt serial depth)
    | none => .error (.noAdapter idx)
  | none =>
    .ok (e.handleOutcome (.permanent "no adapter bound for target device") cmd attempt serial depth)

/-- Dispatch one command; events it yields enter the queue one causal hop deeper. `origin` is a
ghost: the serial of the command when this is a retry. -/
def dispatchAt (fuel : ℕ) (cmd : Command) (attempt : ℕ) (origin : Option ℕ) (depth : ℕ)
    (e : Engine A N) : Exec (Engine A N) :=
  match fuel with
  | 0 => .error .outOfFuel
  | fuel+1 =>
    let cmd := e.resolveImplicitStateCommand cmd
    let e := e.notify (.commandDispatched cmd depth)
    match cmd with
    | .activateScene scene =>
      match e.scenes.lookup scene with
      | some cmds =>
        let e := e.notify (.sceneExpanded scene cmds.length)
        cmds.foldlM (fun e c => dispatchAt fuel c 1 none depth e) e
      | none => .ok e
    | .scheduleTimer _ _ | .cancelTimer _ => .ok (e.scheduleCommand cmd)
    | _ => dispatchDevice cmd attempt origin depth e

/-- `for cmd in commands { self.dispatch_at(cmd, 1, depth) }`. -/
def dispatchAll (fuel : ℕ) (cmds : List Command) (depth : ℕ) (e : Engine A N) :
    Exec (Engine A N) :=
  cmds.foldlM (fun e c => dispatchAt fuel c 1 none depth e) e

/-- Dispatch the commands of a rule that fired. -/
def fire (fuel : ℕ) (rule : Rule) (depth : ℕ) (e : Engine A N) : Exec (Engine A N) :=
  dispatchAll fuel rule.commands depth (e.record (.firing rule.id e.state))

end Dispatch

section Fold
variable [NorthboundAdapter N]

/-- Deliver a folded state change to every observer and every northbound adapter. -/
def fanStateFolded (e : Engine A N) (device : DeviceId) (state : CapabilityState) : Engine A N :=
  { e.notify (.stateFolded device state) with
    northbound := e.northbound.map fun nb => nb.stateFolded device state }

def foldState (e : Engine A N) (ev : Event) : Engine A N :=
  match ev with
  | .stateReported device state =>
    let e := e.fanStateFolded device state
    { e with state := e.state.set device state }
  | _ => e

end Fold

/-- (Re)start a rule's `for:` timer under a generated key. -/
def armForTimer (e : Engine A N) (rule : RuleId) (after : Millis) : Engine A N :=
  let e :=
    match e.pendingFor.lookup rule with
    | some prev =>
      { e with pendingFor := e.pendingFor.erase rule }.schedule (.cancelTimer prev.key)
    | none => e
  let e := { e with forCounter := e.forCounter+1 }
  let key := forKey e.forCounter
  { e with pendingFor := e.pendingFor.insert rule ⟨key⟩ }.schedule (.scheduleTimer key after)

/-- The rules whose pending `for:` timer lost its predicate, in hash order. -/
def revertedRules (π : HashOrder) (e : Engine A N) : List RuleId :=
  ((HashMap.iter π e.trace.length e.pendingFor).map Prod.fst).filter fun rule =>
    match e.rules.find? (fun r => r.id == rule) with
    | some r => !r.trigger.predicateHolds e.state
    | none => true

def cancelForTimer (e : Engine A N) (rule : RuleId) : Engine A N :=
  match e.pendingFor.lookup rule with
  | some pending =>
    { e with pendingFor := e.pendingFor.erase rule }.schedule (.cancelTimer pending.key)
  | none => e

/-- Cancel every pending `for:` timer whose predicate no longer holds. -/
def cancelRevertedForTimers (π : HashOrder) (e : Engine A N) : Engine A N :=
  (e.revertedRules π).foldl cancelForTimer e

section Drain
variable [Adapter A]

/-- A `for:` timer elapsed: re-verify the predicate, then dispatch the rule's commands. -/
def fireElapsedFor (π : HashOrder) (fuel : ℕ) (key : TimerKey) (e : Engine A N) :
    Exec (Engine A N) :=
  match (HashMap.iter π e.trace.length e.pendingFor).find? (fun p => p.2.key == key) with
  | none => .ok e
  | some (ruleId,_) =>
    let e := { e with pendingFor := e.pendingFor.erase ruleId }
    match e.rules.find? (fun r => r.id == ruleId) with
    | none => .ok e
    | some rule =>
      if rule.trigger.predicateHolds e.state then fire fuel rule 0 e else .ok e

/-- The rule loop: every rule whose trigger matches is considered, in order, against the store.
Returns the rules that fired. -/
def considerRules (e : Engine A N) (ev : Event) (prior : Option CapabilityState) :
    Engine A N × List Rule :=
  let matched := e.rules.filter fun r => r.trigger.matchesEvent ev prior
  (matched.foldl (fun e r =>
      let truth := r.condition.eval e.state
      e.notify (.ruleConsidered r.id truth truth.isTrue)) e,
    matched.filter fun r => (r.condition.eval e.state).isTrue)

/-- Arm the fired rules that wait, then dispatch the commands of those that do not. -/
def runFired (fuel : ℕ) (fired : List Rule) (depth : ℕ) (e : Engine A N) : Exec (Engine A N) :=
  let e := fired.foldl (fun e r =>
    match r.forDuration with
    | some d => e.armForTimer r.id d
    | none => e) e
  (fired.filter fun r => r.forDuration.isNone).foldlM (fun e r => fire fuel r depth e) e

variable [NorthboundAdapter N]

/-- The ordinary path of an event: fold it, cancel reverted timers, match the rules. -/
def react (π : HashOrder) (fuel : ℕ) (ev : Event) (depth : ℕ) (e : Engine A N) :
    Exec (Engine A N) :=
  let prior :=
    match ev with
    | .stateReported device state => e.state.get device state.kind
    | _ => none
  let e := e.foldState ev
  let e :=
    match ev with
    | .stateReported _ _ => e.cancelRevertedForTimers π
    | _ => e
  let (e,fired) := e.considerRules ev prior
  runFired fuel fired depth e

/-- After a request, fan the store's current value so that northbound mirrors show the truth. -/
def refan (e : Engine A N) (device : DeviceId) (kind : CapabilityKind) : Engine A N :=
  match e.state.get device kind with
  | some state => e.fanStateFolded device state
  | none => e

def requestChange (fuel : ℕ) (device : DeviceId) (desired : Desired) (depth : ℕ)
    (e : Engine A N) : Exec (Engine A N) := do
  let e ←
    match commandForRequestedChange device desired with
    | some cmd => dispatchAt fuel cmd 1 none depth e
    | none => .ok e
  .ok (e.refan device desired.kind)

/-- The body of `drain`, for one event already popped off the queue. -/
def process (π : HashOrder) (fuel : ℕ) (ev : Event) (depth : ℕ) (e : Engine A N) :
    Exec (Engine A N) :=
  if e.maxCascadeDepth < depth then .ok (e.notify (.cascadeDropped ev depth))
  else
    let e := e.notify (.eventReceived ev depth)
    match ev with
    | .timerElapsed key =>
      match e.retries.lookup key with
      | some pending =>
        -- time-gated, so the causal chain restarts at depth 0
        dispatchAt fuel pending.command pending.attempt (some pending.serial) 0
          { e with retries := e.retries.erase key }
      | none =>
        if key.startsWith forKeyPrefix then e.fireElapsedFor π fuel key
        else e.react π fuel ev depth
    | .requestedChange device desired => e.requestChange fuel device desired depth
    | .requestedScene scene => dispatchAt fuel (.activateScene scene) 1 none depth e
    | _ => e.react π fuel ev depth

def drain (π : HashOrder) (fuel : ℕ) (e : Engine A N) : Exec (Engine A N) :=
  match fuel with
  | 0 => .error .outOfFuel
  | fuel+1 =>
    match e.queue with
    | [] => .ok e
    | (ev,depth) :: rest => do
      let e ← process π fuel ev depth { e with queue := rest }
      drain π fuel e

/-- Tick every adapter, northbound ones last, and enqueue what they produce at depth 0. -/
def tickAdapters (π : HashOrder) (e : Engine A N) : Engine A N :=
  let e := e.record .ticked
  let ticked := e.adapters.tick π e.trace.length e.now
  let produced := ticked.1 ++ e.northbound.flatMap (fun nb : Northbound N => (nb.tick e.now).1)
  let e :=
    { e with
      adapters := ticked.2
      northbound := e.northbound.map fun nb : Northbound N => (nb.tick e.now).2 }
  e.enqueueAll produced 0

/-- Replay the store into every northbound adapter, in hash order. -/
def syncNorthboundStartupState (π : HashOrder) (e : Engine A N) : Engine A N :=
  let snapshot := e.state.iter π e.trace.length
  let replay (nbs : List (Northbound N)) (entry : DeviceId × CapabilityState) :=
    nbs.map fun nb => nb.stateFolded entry.1 entry.2
  { e with northbound := snapshot.foldl replay e.northbound }

def start (π : HashOrder) (fuel : ℕ) (e : Engine A N) : Exec (Engine A N) := do
  let e ← drain π fuel ((e.record .started).tickAdapters π)
  .ok (e.syncNorthboundStartupState π)

def inject (π : HashOrder) (fuel : ℕ) (ev : Event) (e : Engine A N) : Exec (Engine A N) :=
  drain π fuel (e.enqueue ev 0)

/-- `self.now += dt`. -/
def elapse (e : Engine A N) (dt : Millis) : Engine A N :=
  { e with now := addMillis e.now dt,overflowed := e.overflowed || decide (2^64 ≤ e.now+dt) }

def advance (π : HashOrder) (fuel : ℕ) (dt : Millis) (e : Engine A N) : Exec (Engine A N) :=
  drain π fuel ((e.elapse dt).tickAdapters π)

end Drain
end Engine
end Domiform
