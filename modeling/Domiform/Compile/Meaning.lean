import Domiform.Compile.Reading
import Domiform.Unknown

/-! What the nodes of the file mean, by the names they use: when an event meets a trigger, while
which values an edge lasts, and what is known of a condition when some of what it reads was never
reported. Lowering keeps all three. -/
namespace Domiform
open Library Checked

namespace Trigger
variable {ev : Event} {prior : Option CapabilityState} {s : StateStore} {d : DeviceId}
  {k : CapabilityKind}

theorem matches_action {a : ActionId} :
    (action d a).matchesEvent ev prior = true ↔ ev = .action d a := by
  cases ev <;> simp [matchesEvent]
  constructor <;> rintro ⟨rfl,rfl⟩ <;> exact ⟨rfl,rfl⟩

theorem matches_reports : (reports d k).matchesEvent ev prior = true ↔
    ∃ v, ev = .stateReported d v ∧ v.kind = k := by
  cases ev with
  | stateReported d' v => simp [matchesEvent,eq_comm (a := d)]
  | _ => simp [matchesEvent]

theorem matches_timer {key : TimerKey} :
    (timer key).matchesEvent ev prior = true ↔ ev = .timerElapsed key := by
  cases ev <;> simp [matchesEvent]
  exact eq_comm

theorem matches_time {schedule : ScheduleId} :
    (time schedule).matchesEvent ev prior = true ↔ ev = .timeReached schedule := by
  cases ev <;> simp [matchesEvent]
  exact eq_comm

theorem matches_commandFailed {device : Option DeviceId} :
    (commandFailed device).matchesEvent ev prior = true ↔ ∃ cmd reason attempts,
      ev = .commandFailed cmd reason attempts ∧ ∀ d, device = some d → cmd.targetDevice = some d := by
  cases ev with
  | commandFailed cmd reason attempts => cases device <;> simp [matchesEvent]
  | _ => simp [matchesEvent]

variable (before : ∀ d v, ev = .stateReported d v → prior = s.get d v.kind)
include before

theorem matches_changed {target : Bool} : (changed d k target).matchesEvent ev prior = true ↔
    ∃ v, ev = .stateReported d v ∧ v.kind = k ∧ v.asBool = some target ∧
      ∀ w, s.get d k = some w → w.asBool ≠ some target := by
  cases ev with
  | stateReported d' v =>
    rw [before d' v rfl]
    simp only [matchesEvent,Bool.and_eq_true,beq_iff_eq,bne_iff_ne,ne_eq,Event.stateReported.injEq]
    constructor
    · rintro ⟨⟨⟨rfl,rfl⟩,hv⟩,hp⟩
      refine ⟨v,⟨rfl,rfl⟩,rfl,hv,fun w hw hb => hp ?_⟩
      rw [hw]
      exact hb
    · rintro ⟨_,⟨rfl,rfl⟩,rfl,hv,hp⟩
      refine ⟨⟨⟨rfl,rfl⟩,hv⟩,fun hb => ?_⟩
      obtain ⟨w,hw,hb⟩ := Option.bind_eq_some_iff.mp hb
      exact hp w hw hb
  | _ => simp [matchesEvent]

theorem matches_crosses {bound : ℤ} {dir : CrossDir} :
    (crosses d k bound dir).matchesEvent ev prior = true ↔
      ∃ v n, ev = .stateReported d v ∧ v.kind = k ∧ v.asI64 = some n ∧
        dir.satisfied bound n = true ∧
          ∀ w m, s.get d k = some w → w.asI64 = some m → ¬dir.satisfied bound m = true := by
  cases ev with
  | stateReported d' v =>
    rw [before d' v rfl]
    by_cases hd : d = d' ∧ v.kind = k
    · obtain ⟨rfl,rfl⟩ := hd
      cases hv : v.asI64 with
      | none => simp [matchesEvent,hv]
      | some n =>
        have hp : (((s.get d v.kind).bind CapabilityState.asI64).map (dir.satisfied bound)).getD
            false = true ↔ ∃ w m, s.get d v.kind = some w ∧ w.asI64 = some m ∧
              dir.satisfied bound m = true := by
          cases s.get d v.kind with
          | none => simp
          | some w => cases hm : w.asI64 <;> simp [hm]
        simp only [matchesEvent,bne_self_eq_false,Bool.or_self,Bool.false_eq_true,if_false,hv,
          Bool.and_eq_true,Bool.not_eq_true',Bool.eq_false_iff,ne_eq,hp]
        constructor
        · rintro ⟨hn,hp⟩
          exact ⟨v,n,rfl,rfl,hv,hn,fun w m hw hm hs => hp ⟨w,m,hw,hm,hs⟩⟩
        · rintro ⟨_,m,⟨rfl,rfl⟩,-,hm,hs,hp⟩
          cases hv.symm.trans hm
          refine ⟨hs,?_⟩
          rintro ⟨w,m,hw,hm,hs⟩
          exact hp w m hw hm hs
    · have hne : (d != d' || v.kind != k) = true := by
        simpa [Decidable.or_iff_not_not_and_not] using hd
      simp only [matchesEvent,hne,if_true,Bool.false_eq_true,false_iff]
      rintro ⟨_,_,he,hk,-⟩
      cases he
      exact hd ⟨rfl,hk⟩
  | _ => simp [matchesEvent]

end Trigger

/-- The numbers on the side of the bound that the node asks for. -/
def RawCrosses.Beyond (x : RawCrosses) (n : ℤ) : Prop :=
  (∃ bound, x.above = some bound ∧ x.below = none ∧ bound ≤ n) ∨
    ∃ bound, x.above = none ∧ x.below = some bound ∧ n ≤ bound

namespace Lowerer

/-- A payload names a device and a capability of which `p` holds. -/
def Names {α : Type} (lw : Lowerer) (decode : Value → Option α) (device capability : α → String)
    (payload : Value) (p : α → DeviceId → CapabilityKind → Prop) : Prop :=
  ∃ x d k, Decodes decode payload x ∧ lw.deviceIndex.lookup (device x) = some d ∧
    parseCapability (capability x) = some k ∧ p x d k

/-- When an event meets a trigger, given what was stored before it. -/
def Heeds (lw : Lowerer) (s : StateStore) (ev : Event) (verb : String) (payload : Value) : Prop :=
  if verb = "event" then
    ∃ spec devName eventName device d e, payload.asStr = some spec ∧
      Text.splitOnce '.' spec.toList = some (devName,eventName) ∧
        lw.deviceIndex.lookup (.ofList devName) = some device ∧
          lw.devices[device.val]? = some d ∧
            d.events.find? (fun e => e.name == .ofList eventName) = some e ∧
              ev = .action device e.id
  else if verb = "changed" then
    lw.Names RawChanged.decode RawChanged.device RawChanged.capability payload fun x d k =>
      ∃ v, ev = .stateReported d v ∧ v.kind = k ∧ v.asBool = some x.target ∧
        ∀ w, s.get d k = some w → w.asBool ≠ some x.target
  else if verb = "crosses" then
    lw.Names RawCrosses.decode RawCrosses.device RawCrosses.capability payload fun x d k =>
      ∃ v n, ev = .stateReported d v ∧ v.kind = k ∧ v.asI64 = some n ∧ x.Beyond n ∧
        ∀ w m, s.get d k = some w → w.asI64 = some m → ¬x.Beyond m
  else if verb = "reports" then
    lw.Names RawReports.decode RawReports.device RawReports.capability payload fun _ d k =>
      ∃ v, ev = .stateReported d v ∧ v.kind = k
  else if verb = "timer" then ∃ key, payload.asStr = some key ∧ ev = .timerElapsed ⟨key⟩
  else if verb = "schedule" then
    ∃ name schedule, payload.asStr = some name ∧ lw.scheduleIndex.lookup name = some schedule ∧
      ev = .timeReached schedule
  else if verb = "command_failed" then
    ∃ spec cmd reason attempts, payload.asStr = some spec ∧ ev = .commandFailed cmd reason attempts ∧
      (spec = "*" ∨ ∃ device, lw.deviceIndex.lookup spec = some device ∧
        cmd.targetDevice = some device)
  else False

/-- While which values the edge that a trigger waits for lasts. -/
def Lasts (lw : Lowerer) (s : StateStore) (verb : String) (payload : Value) : Prop :=
  if verb = "changed" then
    lw.Names RawChanged.decode RawChanged.device RawChanged.capability payload fun x d k =>
      ∃ v, s.get d k = some v ∧ v.asBool = some x.target
  else if verb = "crosses" then
    lw.Names RawCrosses.decode RawCrosses.device RawCrosses.capability payload fun x d k =>
      ∃ v n, s.get d k = some v ∧ v.asI64 = some n ∧ x.Beyond n
  else False

/-- What holds of the verb and the payload of a node with one entry. -/
def OfEntry (p : String → Value → Prop) (v : Value) : Prop :=
  ∃ k payload verb, v = .mapping [(k,payload)] ∧ k.asStr = some verb ∧ p verb payload

/-- The capability that a node without other conditions in it reads. -/
def Reads (lw : Lowerer) (verb : String) (payload : Value) (x : DeviceId × CapabilityKind) : Prop :=
  if verb = "sun_up" then x = (lw.clockDevice,.sunUp)
  else if verb = "switch" then
    ∃ y, Decodes RawSwitchIs.decode payload y ∧ lw.deviceIndex.lookup y.device = some x.1 ∧
      x.2 = .switch
  else if verb = "occupancy_is" then
    ∃ y, Decodes RawOccupancyIs.decode payload y ∧ lw.deviceIndex.lookup y.device = some x.1 ∧
      x.2 = .occupancy
  else if verb = "compare" then
    ∃ y, Decodes RawCompare.decode payload y ∧ lw.deviceIndex.lookup y.device = some x.1 ∧
      parseCapability y.capability = some x.2
  else if verb = "color_is" then
    ∃ y, Decodes RawColorIs.decode payload y ∧ lw.deviceIndex.lookup y.device = some x.1 ∧
      x.2 = .color
  else if verb = "time_after" ∨ verb = "time_before" then x = (lw.clockDevice,.timeOfDay)
  else False

open scoped Classical in
/-- What is known of a leaf: nothing as long as what it reads was never reported. -/
noncomputable def judgeLeaf (lw : Lowerer) (context : String) (s : StateStore) (verb : String)
    (payload : Value) : Truth :=
  if ∃ x, lw.Reads verb payload x ∧ s.get x.1 x.2 = none then .unknown
  else if lw.LeafHolds context s verb payload then .true
  else .false

mutual
/-- What is known of a condition of the file. -/
noncomputable def judge (lw : Lowerer) (context : String) (s : StateStore) (v : Value) : Truth :=
  match v with
  | .mapping [(k,payload)] =>
    match k.asStr with
    | none => .unknown
    | some verb =>
      if verb = "all" then (judgeMembers lw context s payload).foldl Truth.and .true
      else if verb = "any" then (judgeMembers lw context s payload).foldl Truth.or .false
      else if verb = "not" then (judge lw context s payload).not
      else lw.judgeLeaf context s verb payload
  | _ => .unknown
termination_by structural v

noncomputable def judgeMembers (lw : Lowerer) (context : String) (s : StateStore) (v : Value) :
    List Truth :=
  match v with
  | .tagged _ v => judgeMembers lw context s v
  | .sequence items => judgeItems lw context s items
  | _ => []
termination_by structural v

noncomputable def judgeItems (lw : Lowerer) (context : String) (s : StateStore)
    (items : List Value) : List Truth :=
  match items with
  | [] => []
  | v :: vs => judge lw context s v :: judgeItems lw context s vs
termination_by structural items
end

section Triggers
variable {lw : Lowerer} {context : String} {s : StateStore} {ev : Event} {t : Trigger}

theorem resolveEvent_eq_some {device : DeviceId} {devName event : String} {action : ActionId}
    (h : (lw.resolveEvent device devName event context).value = some action) :
    ∃ d e, lw.devices[device.val]? = some d ∧ d.events.find? (fun e => e.name == event) = some e ∧
      e.id = action := by
  simp only [resolveEvent] at h
  split at h
  · cases h
  · rename_i d hd
    split at h
    · rename_i e he
      cases h
      exact ⟨d,e,hd,he,rfl⟩
    · cases h

theorem crossBound_eq_some {x : RawCrosses} {bound : ℤ} {dir : CrossDir}
    (h : (crossBound x.above x.below context).value = some (bound,dir)) (n : ℤ) :
    dir.satisfied bound n = true ↔ x.Beyond n := by
  cases x with
  | mk device capability above below =>
    cases above <;> cases below <;> cases h <;> simp [RawCrosses.Beyond,CrossDir.satisfied]

/-- What a payload names is no choice. -/
theorem names_iff {α : Type} {decode : Value → Option α} {device capability : α → String}
    {payload : Value} {p : α → DeviceId → CapabilityKind → Prop} {x : α} {d : DeviceId}
    {k : CapabilityKind} (hx : Decodes decode payload x)
    (hd : lw.deviceIndex.lookup (device x) = some d)
    (hk : parseCapability (capability x) = some k) :
    lw.Names decode device capability payload p ↔ p x d k := by
  constructor
  · rintro ⟨y,d',k',hy,hd',hk',hp⟩
    cases hx.unique hy
    cases hd.symm.trans hd'
    cases hk.symm.trans hk'
    exact hp
  · exact fun hp => ⟨x,d,k,hx,hd,hk,hp⟩

/-- The trigger of each verb, with what its payload names. -/
inductive Spells (lw : Lowerer) (payload : Value) : String → Trigger → Prop
  | event {spec : String} {devName eventName : List Char} {device : DeviceId} {d : DeviceDef}
      {e : DeviceEvent} (named : payload.asStr = some spec)
      (parts : Text.splitOnce '.' spec.toList = some (devName,eventName))
      (known : lw.deviceIndex.lookup (.ofList devName) = some device)
      (there : lw.devices[device.val]? = some d)
      (declared : d.events.find? (fun e => e.name == .ofList eventName) = some e) :
      Spells lw payload "event" (.action device e.id)
  | changed {x : RawChanged} {device : DeviceId} {kind : CapabilityKind}
      (node : Decodes RawChanged.decode payload x)
      (known : lw.deviceIndex.lookup x.device = some device)
      (capability : parseCapability x.capability = some kind) :
      Spells lw payload "changed" (.changed device kind x.target)
  | crosses {x : RawCrosses} {device : DeviceId} {kind : CapabilityKind} {bound : ℤ} {dir : CrossDir}
      (node : Decodes RawCrosses.decode payload x)
      (known : lw.deviceIndex.lookup x.device = some device)
      (capability : parseCapability x.capability = some kind)
      (side : ∀ n, dir.satisfied bound n = true ↔ x.Beyond n) :
      Spells lw payload "crosses" (.crosses device kind bound dir)
  | reports {x : RawReports} {device : DeviceId} {kind : CapabilityKind}
      (node : Decodes RawReports.decode payload x)
      (known : lw.deviceIndex.lookup x.device = some device)
      (capability : parseCapability x.capability = some kind) :
      Spells lw payload "reports" (.reports device kind)
  | timer {key : String} (named : payload.asStr = some key) : Spells lw payload "timer" (.timer ⟨key⟩)
  | schedule {name : String} {schedule : ScheduleId} (named : payload.asStr = some name)
      (known : lw.scheduleIndex.lookup name = some schedule) :
      Spells lw payload "schedule" (.time schedule)
  | anyFailure (named : payload.asStr = some "*") :
      Spells lw payload "command_failed" (.commandFailed none)
  | failure {spec : String} {device : DeviceId} (named : payload.asStr = some spec)
      (one : spec ≠ "*") (known : lw.deviceIndex.lookup spec = some device) :
      Spells lw payload "command_failed" (.commandFailed (some device))

theorem triggerOf_spells {verb : String} {payload : Value}
    (h : (lw.triggerOf verb payload context).value = some t) : lw.Spells payload verb t := by
  rw [triggerOf] at h
  split_ifs at h with he hc hx hr ht hs hf
  · subst he
    obtain ⟨spec,hspec,h⟩ := value_bind_eq_some.mp h
    split at h
    · cases h
    · rename_i devName eventName hsplit
      obtain ⟨device,hd,h⟩ := value_bind_eq_some.mp h
      obtain ⟨action,ha,h⟩ := value_bind_eq_some.mp h
      cases h
      obtain ⟨d,e,hdev,hfind,rfl⟩ := resolveEvent_eq_some ha
      exact .event (asName_eq_some hspec) hsplit (resolveDevice_eq_some hd) hdev hfind
  · subst hc
    obtain ⟨x,hx,h⟩ := value_bind_eq_some.mp h
    obtain ⟨device,hd,h⟩ := value_bind_eq_some.mp h
    obtain ⟨kind,hk,h⟩ := value_bind_eq_some.mp h
    obtain ⟨-,-,h⟩ := value_bind_eq_some.mp h
    cases h
    exact .changed (payload_eq_some hx) (resolveDevice_eq_some hd) (shapedCapability_eq_some hk)
  · subst hx
    obtain ⟨x,hx,h⟩ := value_bind_eq_some.mp h
    obtain ⟨device,hd,h⟩ := value_bind_eq_some.mp h
    obtain ⟨kind,hk,h⟩ := value_bind_eq_some.mp h
    obtain ⟨-,-,h⟩ := value_bind_eq_some.mp h
    obtain ⟨⟨bound,dir⟩,hb,h⟩ := value_bind_eq_some.mp h
    cases h
    exact .crosses (payload_eq_some hx) (resolveDevice_eq_some hd) (shapedCapability_eq_some hk)
      (crossBound_eq_some hb)
  · subst hr
    obtain ⟨x,hx,h⟩ := value_bind_eq_some.mp h
    obtain ⟨device,hd,h⟩ := value_bind_eq_some.mp h
    obtain ⟨kind,hk,h⟩ := value_bind_eq_some.mp h
    obtain ⟨-,-,h⟩ := value_bind_eq_some.mp h
    cases h
    exact .reports (payload_eq_some hx) (resolveDevice_eq_some hd) (shapedCapability_eq_some hk)
  · subst ht
    obtain ⟨key,hkey,h⟩ := value_bind_eq_some.mp h
    obtain ⟨-,-,h⟩ := value_bind_eq_some.mp h
    cases h
    exact .timer (asName_eq_some hkey)
  · subst hs
    obtain ⟨name,hname,h⟩ := value_bind_eq_some.mp h
    split at h
    · rename_i schedule hs
      obtain ⟨-,-,h⟩ := value_bind_eq_some.mp h
      cases h
      exact .schedule (asName_eq_some hname) hs
    · cases h
  · subst hf
    obtain ⟨spec,hspec,h⟩ := value_bind_eq_some.mp h
    split_ifs at h with hstar
    · cases h
      exact .anyFailure (hstar ▸ asName_eq_some hspec)
    · obtain ⟨device,hd,h⟩ := value_bind_eq_some.mp h
      cases h
      exact .failure (asName_eq_some hspec) hstar (resolveDevice_eq_some hd)
  · cases h

/-- A trigger matches the events that meet its node. -/
theorem Spells.matches {verb : String} {payload : Value} (h : lw.Spells payload verb t)
    {prior : Option CapabilityState}
    (before : ∀ d v, ev = .stateReported d v → prior = s.get d v.kind) :
    t.matchesEvent ev prior = true ↔ lw.Heeds s ev verb payload := by
  rw [Heeds]
  cases h with
  | @event spec devName eventName device d e named parts known there declared =>
    simp only [if_true]
    rw [Trigger.matches_action]
    constructor
    · exact fun he => ⟨spec,devName,eventName,device,d,e,named,parts,known,there,declared,he⟩
    · rintro ⟨spec',devName',eventName',device',d',e',hname,hsplit,hdevice,hdev,hfind,he⟩
      cases named.symm.trans hname
      cases parts.symm.trans hsplit
      cases known.symm.trans hdevice
      cases there.symm.trans hdev
      cases declared.symm.trans hfind
      exact he
  | changed node known capability =>
    simp only [String.reduceEq,if_false,if_true]
    rw [names_iff node known capability]
    exact Trigger.matches_changed before
  | crosses node known capability side =>
    simp only [String.reduceEq,if_false,if_true]
    rw [names_iff node known capability,Trigger.matches_crosses before]
    simp only [side]
  | reports node known capability =>
    simp only [String.reduceEq,if_false,if_true]
    rw [names_iff node known capability]
    exact Trigger.matches_reports
  | timer named => simp [named,Trigger.matches_timer]
  | schedule named known => simp [named,known,Trigger.matches_time]
  | anyFailure named => simp [named,Trigger.matches_commandFailed]
  | failure named one known => simp [named,one,known,Trigger.matches_commandFailed]

/-- The predicate of a trigger is what its node waits for. -/
theorem Spells.predicate {verb : String} {payload : Value} (h : lw.Spells payload verb t) :
    t.predicateHolds s = true ↔ lw.Lasts s verb payload := by
  rw [Lasts]
  cases h with
  | changed node known capability =>
    rw [if_pos rfl,names_iff node known capability]
    simp [Trigger.predicateHolds,StateStore.boolValue,Option.bind_eq_some_iff]
  | @crosses x device kind bound dir node known capability side =>
    simp only [String.reduceEq,if_false,if_true]
    rw [names_iff node known capability]
    simp only [← side,Trigger.predicateHolds,StateStore.numValue]
    cases hg : s.get device kind with
    | none => simp
    | some v => cases hn : v.asI64 <;> simp [hn]
  | _ => simp [Trigger.predicateHolds]

end Triggers
section Conditions
variable {lw : Lowerer} {context : String} {s : StateStore}

/-- A payload that names a device of which the kind is fixed. -/
theorem reads_iff {α : Type} {decode : Value → Option α} {name : α → String} {payload : Value}
    {x : α} {device : DeviceId} {k : CapabilityKind} (hx : Decodes decode payload x)
    (hd : lw.deviceIndex.lookup (name x) = some device) (y : DeviceId × CapabilityKind) :
    (∃ z, Decodes decode payload z ∧ lw.deviceIndex.lookup (name z) = some y.1 ∧ y.2 = k) ↔
      y = (device,k) := by
  constructor
  · rintro ⟨z,hz,hy,hk⟩
    cases hx.unique hz
    exact Prod.ext (Option.some.inj (hy.symm.trans hd)) hk
  · rintro rfl
    exact ⟨x,hx,hd,rfl⟩

/-- A leaf watches what its node reads. -/
theorem leafCondition_watches {verb : String} {payload : Value} {c : Condition}
    (h : (lw.leafCondition verb payload context).value = some c) :
    ∃ x, c.watches = some x ∧ ∀ y, lw.Reads verb payload y ↔ y = x := by
  rw [leafCondition] at h
  split_ifs at h with hsun hsw hocc hcmp hcol haft hbef
  · subst hsun
    obtain ⟨up,-,h⟩ := value_bind_eq_some.mp h
    cases h
    exact ⟨_,rfl,fun y => by simp [Reads]⟩
  · subst hsw
    obtain ⟨x,hx,h⟩ := value_bind_eq_some.mp h
    obtain ⟨device,hd,h⟩ := value_bind_eq_some.mp h
    obtain ⟨-,-,h⟩ := value_bind_eq_some.mp h
    cases h
    exact ⟨_,rfl,reads_iff (payload_eq_some hx) (resolveDevice_eq_some hd)⟩
  · subst hocc
    obtain ⟨x,hx,h⟩ := value_bind_eq_some.mp h
    obtain ⟨device,hd,h⟩ := value_bind_eq_some.mp h
    obtain ⟨-,-,h⟩ := value_bind_eq_some.mp h
    cases h
    exact ⟨_,rfl,reads_iff (payload_eq_some hx) (resolveDevice_eq_some hd)⟩
  · subst hcmp
    obtain ⟨x,hx,h⟩ := value_bind_eq_some.mp h
    obtain ⟨device,hd,h⟩ := value_bind_eq_some.mp h
    obtain ⟨kind,hk,h⟩ := value_bind_eq_some.mp h
    obtain ⟨op,-,h⟩ := value_bind_eq_some.mp h
    obtain ⟨-,-,h⟩ := value_bind_eq_some.mp h
    cases h
    have hx' := payload_eq_some hx
    have hd' := resolveDevice_eq_some hd
    have hk' := shapedCapability_eq_some hk
    refine ⟨_,rfl,fun y => ⟨?_,?_⟩⟩
    · rintro ⟨z,hz,hy,hkz⟩
      cases Decodes.unique hx' hz
      exact Prod.ext (Option.some.inj (hy.symm.trans hd')) (Option.some.inj (hkz.symm.trans hk'))
    · rintro rfl
      exact ⟨x,hx',hd',hk'⟩
  · subst hcol
    obtain ⟨x,hx,h⟩ := value_bind_eq_some.mp h
    obtain ⟨device,hd,h⟩ := value_bind_eq_some.mp h
    obtain ⟨-,-,h⟩ := value_bind_eq_some.mp h
    obtain ⟨⟨r,g,b⟩,-,h⟩ := value_bind_eq_some.mp h
    cases h
    exact ⟨_,rfl,reads_iff (payload_eq_some hx) (resolveDevice_eq_some hd)⟩
  · subst haft
    obtain ⟨t,-,h⟩ := value_bind_eq_some.mp h
    obtain ⟨minute,-,h⟩ := value_bind_eq_some.mp h
    cases h
    exact ⟨_,rfl,fun y => by simp [Reads]⟩
  · subst hbef
    obtain ⟨t,-,h⟩ := value_bind_eq_some.mp h
    obtain ⟨minute,-,h⟩ := value_bind_eq_some.mp h
    cases h
    exact ⟨_,rfl,fun y => by simp [Reads]⟩
  · cases h

/-- A leaf is judged like its node. -/
theorem leafCondition_judged {verb : String} {payload : Value} {c : Condition}
    (h : (lw.leafCondition verb payload context).value = some c) {sc : Scope}
    (hw : c.WellFormed sc) : c.eval s = lw.judgeLeaf context s verb payload := by
  obtain ⟨x,hx,hr⟩ := leafCondition_watches h
  have hn : (∃ y, lw.Reads verb payload y ∧ s.get y.1 y.2 = none) ↔ s.get x.1 x.2 = none := by
    simp only [hr,exists_eq_left]
  have reads : c.Says s ↔ lw.LeafHolds context s verb payload := leafCondition_reads h
  rw [judgeLeaf]
  simp only [hn]
  rcases hw.told hx with ⟨hg,hu⟩ | ⟨hg,hd⟩
  · rw [if_pos hg,hu]
  · rw [if_neg hg]
    rcases hd with ⟨he,hp⟩ | ⟨he,hp⟩
    · rw [if_pos (reads.mp hp),he]
    · rw [if_neg (reads.not.mp hp),he]

mutual
/-- A lowered condition is judged like its node, whatever is stored. -/
theorem Mirrors.judged {v : Value} {c : Condition} {sc : Scope} (h : lw.Mirrors context v c)
    (hw : c.WellFormed sc) : c.eval s = lw.judge context s v := by
  match v,h,hw with
  | .mapping [(k,payload)],.all verb list members,.and hw =>
    rw [judge,verb,Condition.eval,Condition.evalAnd_eq,Mirrors.members_judged list members hw]
    rfl
  | .mapping [(k,payload)],.any verb list members,.or hw =>
    rw [judge,verb,Condition.eval,Condition.evalOr_eq,Mirrors.members_judged list members hw]
    rfl
  | .mapping [(k,payload)],.not verb inner,.not hw =>
    rw [judge,verb,Condition.eval,Mirrors.judged inner hw]
    rfl
  | .mapping [(k,payload)],.leaf verb plain lowered,hw =>
    rw [judge,verb]
    simp only [if_neg plain.1,if_neg plain.2.1,if_neg plain.2.2]
    exact leafCondition_judged lowered hw

theorem Mirrors.members_judged {payload : Value} {items : List Value} {cs : List Condition}
    {sc : Scope} (list : payload.asSequence = some items)
    (members : List.Forall₂ (lw.Mirrors context) items cs) (hw : ∀ c ∈ cs, c.WellFormed sc) :
    (cs.map fun c => c.eval s) = lw.judgeMembers context s payload := by
  match payload,list with
  | .tagged _ v,list =>
    have list' : v.asSequence = some items := list
    have inner := Mirrors.members_judged list' members hw
    exact inner
  | .sequence _,rfl => exact Mirrors.items_judged members hw

theorem Mirrors.items_judged {items : List Value} {cs : List Condition} {sc : Scope}
    (members : List.Forall₂ (lw.Mirrors context) items cs) (hw : ∀ c ∈ cs, c.WellFormed sc) :
    (cs.map fun c => c.eval s) = lw.judgeItems context s items := by
  match items,cs,members with
  | [],[],.nil => rfl
  | v :: vs,c :: cs,.cons h hs =>
    rw [List.forall_mem_cons] at hw
    rw [judgeItems,List.map_cons,Mirrors.judged h hw.1,Mirrors.items_judged hs hw.2]
end

end Conditions
end Lowerer
end Domiform
