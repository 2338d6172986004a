import Domiform.State

/-! Rules: `trigger + condition + commands`, pure in the state store and the triggering event. -/
namespace Domiform

/-- Direction of a numeric threshold crossing. -/
inductive CrossDir
  | above
  | below
  deriving DecidableEq, Repr

/-- Whether a value is on the wanted side of the bound. -/
def CrossDir.satisfied (dir : CrossDir) (bound v : ℤ) : Bool :=
  match dir with
  | above => decide (bound ≤ v)
  | below => decide (v ≤ bound)

/-- What kind of event wakes a rule. -/
inductive Trigger
  | action (device : DeviceId) (action : ActionId)
  | changed (device : DeviceId) (kind : CapabilityKind) (target : Bool)
  | crosses (device : DeviceId) (kind : CapabilityKind) (bound : ℤ) (dir : CrossDir)
  | reports (device : DeviceId) (kind : CapabilityKind)
  | timer (key : TimerKey)
  | time (schedule : ScheduleId)
  | commandFailed (device : Option DeviceId)
  deriving DecidableEq

namespace Trigger

/-- Whether `ev` fires the trigger. `prior` is the value the store held for the reported
capability before the event was folded; only the edge triggers read it. -/
def matchesEvent (t : Trigger) (ev : Event) (prior : Option CapabilityState) : Bool :=
  match t,ev with
  | action device a, .action d a' => device == d && a == a'
  | changed device kind target, .stateReported d state =>
    device == d && state.kind == kind && state.asBool == some target &&
      prior.bind CapabilityState.asBool != some target
  | crosses device kind bound dir, .stateReported d state =>
    if device != d || state.kind != kind then false
    else
      match state.asI64 with
      | none => false
      | some new =>
        -- a first report that already satisfies the bound counts as a crossing
        let priorSatisfied := ((prior.bind CapabilityState.asI64).map (dir.satisfied bound)).getD false
        dir.satisfied bound new && !priorSatisfied
  | reports device kind, .stateReported d state => device == d && state.kind == kind
  | timer key, .timerElapsed k => key == k
  | time schedule, .timeReached s => schedule == s
  | commandFailed device, .commandFailed command _ _ =>
    match device with
    | none => true
    | some d => command.targetDevice == some d
  | _, _ => false

/-- The capability an edge trigger watches. -/
def watched : Trigger → Option (DeviceId × CapabilityKind)
  | changed device kind _ | crosses device kind _ _ => some (device,kind)
  | _ => none

/-- Whether the predicate of an edge trigger holds in the store. -/
def predicateHolds (t : Trigger) (state : StateStore) : Bool :=
  match t with
  | changed device kind target => state.boolValue device kind == some target
  | crosses device kind bound dir =>
    match state.numValue device kind with
    | some v => dir.satisfied bound v
    | none => false
  | _ => false

end Trigger

inductive CmpOp
  | lt | le | eq | ne | ge | gt
  deriving DecidableEq, Repr

def CmpOp.test (op : CmpOp) (actual bound : ℤ) : Bool :=
  match op with
  | lt => decide (actual < bound)
  | le => decide (actual ≤ bound)
  | eq => decide (actual = bound)
  | ne => decide (actual ≠ bound)
  | ge => decide (bound ≤ actual)
  | gt => decide (bound < actual)

/-- Kleene truth. `unknown` means a leaf reads state that was never reported. -/
inductive Truth
  | true
  | false
  | unknown
  deriving DecidableEq, Repr

namespace Truth

def fromBool (b : Bool) : Truth := if b then true else false

/-- A rule fires on a definite `true` only. -/
def isTrue (t : Truth) : Bool := t == true

def not : Truth → Truth
  | true => false
  | false => true
  | unknown => unknown

def and : Truth → Truth → Truth
  | false, _ => false
  | _, false => false
  | true, true => true
  | _, _ => unknown

def or : Truth → Truth → Truth
  | true, _ => true
  | _, true => true
  | false, false => false
  | _, _ => unknown

@[simp] theorem isTrue_iff (t : Truth) : t.isTrue = Bool.true ↔ t = true := by
  simp [isTrue]

end Truth

/-- A boolean expression over the current state. -/
inductive Condition
  | always
  | not (inner : Condition)
  | and (cs : List Condition)
  | or (cs : List Condition)
  | boolEquals (device : DeviceId) (kind : CapabilityKind) (value : Bool)
  | compare (device : DeviceId) (kind : CapabilityKind) (op : CmpOp) (value : ℤ)
  | colorEquals (device : DeviceId) (r g b : UInt8)

namespace Condition

mutual
def eval (c : Condition) (state : StateStore) : Truth :=
  match c with
  | always => .true
  | not inner => (inner.eval state).not
  | and cs => evalAnd .true cs state
  | or cs => evalOr .false cs state
  | boolEquals device kind value =>
    match state.boolValue device kind with
    | some actual => .fromBool (actual == value)
    | none => .unknown
  | compare device kind op value =>
    match state.numValue device kind with
    | some actual => .fromBool (op.test actual value)
    | none => .unknown
  | colorEquals device r g b =>
    match state.get device .color with
    | some (.color cr cg cb) => .fromBool (cr == r && cg == g && cb == b)
    | _ => .unknown

/-- `cs.iter().fold(acc, |acc, c| acc.and(c.eval(state)))`. -/
def evalAnd (acc : Truth) (cs : List Condition) (state : StateStore) : Truth :=
  match cs with
  | [] => acc
  | c :: cs => evalAnd (acc.and (c.eval state)) cs state

/-- `cs.iter().fold(acc, |acc, c| acc.or(c.eval(state)))`. -/
def evalOr (acc : Truth) (cs : List Condition) (state : StateStore) : Truth :=
  match cs with
  | [] => acc
  | c :: cs => evalOr (acc.or (c.eval state)) cs state
end

end Condition

structure Rule where
  id : RuleId
  name : String
  trigger : Trigger
  condition : Condition
  commands : List Command
  /-- The `for:` qualifier: how long the edge trigger's predicate must hold. -/
  forDuration : Option Millis

namespace Trigger

/-- An edge is a report after which the predicate holds and before which it did not. -/
theorem matchesEvent_stateReported_iff {t : Trigger} (ht : t.watched.isSome) {d : DeviceId}
    {v : CapabilityState} {s : StateStore} :
    t.matchesEvent (.stateReported d v) (s.get d v.kind) = true ↔
      t.watched = some (d,v.kind) ∧ t.predicateHolds (s.set d v) = true ∧
        t.predicateHolds s = false := by
  cases t with
  | changed device kind target =>
    by_cases hd : device = d
    · by_cases hk : v.kind = kind
      · subst hd hk
        simp [matchesEvent,watched,predicateHolds,StateStore.boolValue]
      · simp [matchesEvent,watched,hd,hk,Ne.symm hk]
    · simp [matchesEvent,watched,hd]
  | crosses device kind bound dir =>
    by_cases hd : device = d
    · by_cases hk : v.kind = kind
      · subst hd hk
        simp only [matchesEvent,watched,predicateHolds,StateStore.numValue,
          StateStore.get_set_self,bne_self_eq_false,Bool.or_self,Bool.false_eq_true,if_false,
          Option.bind_some,true_and]
        cases v.asI64 <;> cases (s.get device v.kind).bind CapabilityState.asI64 <;> simp
      · simp [matchesEvent,watched,hd,hk,Ne.symm hk]
    · simp [matchesEvent,watched,hd]
  | _ => simp [watched] at ht

/-- Only a report of the watched capability makes an edge trigger match. -/
theorem matchesEvent_edge {t : Trigger} (ht : t.watched.isSome) {ev : Event}
    {prior : Option CapabilityState} (h : t.matchesEvent ev prior = true) :
    ∃ d v, ev = .stateReported d v ∧ t.watched = some (d,v.kind) := by
  cases t with
  | changed device kind target =>
    cases ev <;> simp [matchesEvent] at h
    obtain ⟨⟨⟨rfl,rfl⟩,-⟩,-⟩ := h
    exact ⟨_,_,rfl,rfl⟩
  | crosses device kind bound dir =>
    cases ev with
    | stateReported d v =>
      by_cases hk : device != d || v.kind != kind
      · simp [matchesEvent,hk] at h
      · simp at hk
        obtain ⟨rfl,rfl⟩ := hk
        exact ⟨_,_,rfl,rfl⟩
    | _ => simp [matchesEvent] at h
  | _ => simp [watched] at ht

end Trigger
end Domiform
