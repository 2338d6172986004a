import Domiform.Compile.Accepted

/-! Well-formedness. Lowering goes on after an error, so what it produces means something only when
it noted none; then every reference resolves, and every capability is declared and of the shape its
place needs. -/
namespace Domiform
open Library

/-- The notes that reject a file. -/
abbrev Note.Rejects (n : Note) : Prop := n.isError = true

/-- What a body may refer to. -/
structure Scope where
  devices : List DeviceDef
  clockDevice : DeviceId
  scene : SceneId → Prop
  schedule : ScheduleId → Prop

namespace Scope
variable (s : Scope)

def Known (device : DeviceId) : Prop := ∃ d ∈ s.devices, d.id = device

def Declares (device : DeviceId) (kind : CapabilityKind) : Prop :=
  ∃ d ∈ s.devices, d.id = device ∧ kind ∈ d.capabilities

end Scope

def Trigger.WellFormed (s : Scope) : Trigger → Prop
  | action device a => ∃ d ∈ s.devices, d.id = device ∧ ∃ e ∈ d.events, e.id = a
  | changed device kind _ => s.Declares device kind ∧ kind.isBool = true
  | crosses device kind _ _ => s.Declares device kind ∧ kind.isNumeric = true
  | reports device kind => s.Declares device kind
  | timer _ => True
  | time schedule => s.schedule schedule
  | commandFailed device => ∀ d, device = some d → s.Known d

/-- Only the two conditions on the sun and the time are about the clock device. -/
inductive Condition.WellFormed (s : Scope) : Condition → Prop
  | always : WellFormed s .always
  | not {c : Condition} (h : WellFormed s c) : WellFormed s (.not c)
  | and {cs : List Condition} (h : ∀ c ∈ cs, WellFormed s c) : WellFormed s (.and cs)
  | or {cs : List Condition} (h : ∀ c ∈ cs, WellFormed s c) : WellFormed s (.or cs)
  | sun (up : Bool) : WellFormed s (.boolEquals s.clockDevice .sunUp up)
  | time (op : CmpOp) (minute : ℤ) : WellFormed s (.compare s.clockDevice .timeOfDay op minute)
  | boolEquals {device : DeviceId} {kind : CapabilityKind} (value : Bool)
      (declared : s.Declares device kind) (shape : kind.isBool = true) :
      WellFormed s (.boolEquals device kind value)
  | compare {device : DeviceId} {kind : CapabilityKind} (op : CmpOp) (value : ℤ)
      (declared : s.Declares device kind) (shape : kind.isNumeric = true) :
      WellFormed s (.compare device kind op value)
  | colorEquals {device : DeviceId} (r g b : UInt8) (declared : s.Declares device .color) :
      WellFormed s (.colorEquals device r g b)

namespace Command

/-- The capability a device must declare to be sent the command. -/
def needs : Command → Option (DeviceId × CapabilityKind)
  | setSwitch device _ | toggleSwitch device => some (device,.switch)
  | setBrightness device _ _ | decreaseBrightness device _ | increaseBrightness device _ =>
    some (device,.brightness)
  | setColor device _ _ _ _ => some (device,.color)
  | setColorTemperature device _ _ => some (device,.colorTemperature)
  | sendIrCode device _ => some (device,.irTransmitter)
  | activateScene _ | scheduleTimer _ _ | cancelTimer _ => none

theorem targetDevice_eq_needs (cmd : Command) : cmd.targetDevice = cmd.needs.map Prod.fst := by
  cases cmd <;> rfl

structure WellFormed (s : Scope) (cmd : Command) : Prop where
  declared : ∀ x, cmd.needs = some x → s.Declares x.1 x.2
  scene : ∀ scene, cmd = activateScene scene → s.scene scene

theorem WellFormed.device {s : Scope} {cmd : Command} {device : DeviceId} {kind : CapabilityKind}
    (h : cmd.needs = some (device,kind)) (declared : s.Declares device kind) :
    cmd.WellFormed s := by
  constructor
  · intro x hx
    cases h.symm.trans hx
    exact declared
  · rintro scene rfl
    cases h

end Command

theorem Command.WellFormed.timer {s : Scope} {cmd : Command} (h : cmd.isTimer = true) :
    cmd.WellFormed s := by
  cases cmd with
  | scheduleTimer | cancelTimer =>
    constructor
    · rintro _ ⟨⟩
    · rintro _ ⟨⟩
  | _ => cases h

structure Rule.WellFormed (s : Scope) (r : Rule) : Prop where
  trigger : r.trigger.WellFormed s
  condition : r.condition.WellFormed s
  commands : ∀ c ∈ r.commands, c.WellFormed s
  /-- `for:` is on edge triggers alone. -/
  edge : r.forDuration.isSome → r.trigger.watched.isSome

namespace Lowerer

/-- A name in the device table is that of the device at its position; the clock comes after all. -/
structure Indexed (lw : Lowerer) : Prop where
  device : ∀ name id, lw.deviceIndex.lookup name = some id →
    ∃ d, lw.devices[id.val]? = some d ∧ d.id = id
  clock : lw.clockDevice = ⟨lw.devices.length⟩

def scope (lw : Lowerer) : Scope where
  devices := lw.devices
  clockDevice := lw.clockDevice
  scene s := ∃ name, lw.sceneIndex.lookup name = some s
  schedule s := ∃ name, lw.scheduleIndex.lookup name = some s

/-- What a body lowers to without an error. -/
abbrev Finds {α : Type} (P : α → Prop) (m : Lower α) : Prop := Checked.Meets Note.Rejects P m

section Primitives
variable {α : Type} {P : α → Prop} {v : Value} {node context : String}

theorem error_finds {code message : String} : Finds P (error code message context) := .fail rfl

theorem singleEntry_finds : Finds (fun _ => True) (singleEntry v node context) := by
  unfold singleEntry
  split
  · split
    · exact .pure trivial
    · exact error_finds
  · exact error_finds

theorem asName_finds : Finds (fun _ => True) (asName v node context) := by
  unfold asName
  split
  · exact .pure trivial
  · exact error_finds

theorem asFlag_finds : Finds (fun _ => True) (asFlag v node context) := by
  unfold asFlag
  split
  · exact .pure trivial
  · exact error_finds

theorem payload_finds {lw : Lowerer} {decode : Value → Option α} :
    Finds (fun _ => True) (lw.payload decode v node context) := by
  unfold payload
  split
  · exact error_finds
  · split
    · exact .pure trivial
    · exact error_finds

theorem parseCmpOp_finds {s : String} : Finds (fun _ => True) (parseCmpOp s context) := by
  unfold parseCmpOp
  repeat' first
    | exact .pure trivial
    | exact error_finds
    | refine .ite (fun _ => ?_) fun _ => ?_

theorem shapedCapability_finds {shape : CapabilityKind → Bool} {code message name : String} :
    Finds (fun kind => shape kind = true)
      (shapedCapability shape code message name context) := by
  unfold shapedCapability
  split
  · exact .ite (fun h => .pure h) fun _ => error_finds
  · exact error_finds

theorem parseDuration_finds {s : String} : Finds (fun _ => True) (parseDuration s context) := by
  unfold parseDuration
  split
  · exact .pure trivial
  · exact error_finds

theorem parseTransition_finds {s : Option String} :
    Finds (fun _ => True) (parseTransition s context) := by
  cases s with
  | none => exact .pure trivial
  | some s => exact parseDuration_finds.bind fun _ _ => .pure trivial

theorem parseTime_finds {s : String} : Finds (fun _ => True) (parseTime s context) := by
  unfold parseTime
  split
  · exact .pure trivial
  · exact error_finds

theorem parseColor_finds : Finds (fun _ => True) (parseColor v context) := by
  unfold parseColor
  split
  · split
    · exact .pure trivial
    · exact error_finds
  · split
    · split
      · exact .ite (fun _ => .pure trivial) fun _ => error_finds
      · exact error_finds
    · exact error_finds

theorem parseColorTemperature_finds {raw : RawSetColorTemperature} :
    Finds (fun _ => True) (parseColorTemperature raw context) := by
  unfold parseColorTemperature
  split
  · exact error_finds
  · exact error_finds
  · exact .ite (fun _ => .pure trivial) fun _ => error_finds
  · exact .ite (fun _ => .pure trivial) fun _ => error_finds

theorem crossBound_finds {above below : Option ℤ} :
    Finds (fun _ => True) (crossBound above below context) := by
  unfold crossBound
  split
  · exact error_finds
  · exact error_finds
  · exact .pure trivial
  · exact .pure trivial

theorem forDuration_finds {s : String} {t : Trigger} :
    Finds (fun _ => True) (forDuration s t context) :=
  .ite (fun _ => error_finds) fun _ => parseDuration_finds

end Primitives

/-- A device at the position its id names. -/
def Placed (lw : Lowerer) (id : DeviceId) (d : DeviceDef) : Prop :=
  lw.devices[id.val]? = some d ∧ d.id = id

section References
variable {lw : Lowerer} {name event context usage : String} {device : DeviceId} {d : DeviceDef}
  {kind : CapabilityKind}

theorem resolveDevice_finds (indexed : lw.Indexed) :
    Finds (fun id => ∃ d, lw.Placed id d) (lw.resolveDevice name context) := by
  unfold resolveDevice
  split
  · rename_i id hid
    exact .pure (indexed.device name id hid)
  · exact error_finds

theorem Placed.known (h : lw.Placed device d) : lw.scope.Known device :=
  ⟨d,List.mem_of_getElem? h.1,h.2⟩

/-- The clock is exempt, but no name resolves to it. -/
theorem requireCap_finds (indexed : lw.Indexed) (placed : lw.Placed device d) :
    Finds (fun _ => lw.scope.Declares device kind)
      (lw.requireCap device name kind usage context) := by
  unfold requireCap
  refine .ite (fun hc => ?_) fun _ => ?_
  · have hlt := (List.getElem?_eq_some_iff.mp placed.1).1
    rw [hc,indexed.clock] at hlt
    exact absurd hlt (lt_irrefl _)
  · rw [placed.1]
    refine .ite (fun hm => .pure ?_) fun _ => .note rfl
    exact ⟨d,List.mem_of_getElem? placed.1,placed.2,by simpa using hm⟩

theorem resolveEvent_finds (placed : lw.Placed device d) :
    Finds (fun a => ∃ e ∈ d.events, e.id = a) (lw.resolveEvent device name event context) := by
  unfold resolveEvent
  rw [placed.1]
  dsimp only
  split
  · rename_i e he
    exact .pure ⟨e,List.mem_of_find?_eq_some he,rfl⟩
  · exact error_finds

/-- A device that declares a capability of the shape a place needs. -/
theorem shaped_finds {α : Type} {P : α → Prop} (indexed : lw.Indexed)
    {shape : CapabilityKind → Bool} {code message cap : String}
    {f : DeviceId → CapabilityKind → Lower α} (h : ∀ device kind,
      lw.scope.Declares device kind → shape kind = true → Finds P (f device kind)) :
    Finds P (do
      let device ← lw.resolveDevice name context
      let kind ← shapedCapability shape code message cap context
      lw.requireCap device name kind usage context
      f device kind) :=
  (resolveDevice_finds indexed).bind fun device ⟨_,placed⟩ =>
    shapedCapability_finds.bind fun kind hs =>
      (requireCap_finds indexed placed).bind fun _ hd => h device kind hd hs

/-- A device that declares the capability a place needs. -/
theorem declared_finds {α : Type} {P : α → Prop} (indexed : lw.Indexed) {f : DeviceId → Lower α}
    (h : ∀ device, lw.scope.Declares device kind → Finds P (f device)) :
    Finds P (do
      let device ← lw.resolveDevice name context
      lw.requireCap device name kind usage context
      f device) :=
  (resolveDevice_finds indexed).bind fun device ⟨_,placed⟩ =>
    (requireCap_finds indexed placed).bind fun _ hd => h device hd

end References

section Bodies
variable {lw : Lowerer} (indexed : lw.Indexed) {context : String}
include indexed

theorem triggerOf_finds (verb : String) (payload : Value) :
    Finds (Trigger.WellFormed lw.scope) (lw.triggerOf verb payload context) := by
  unfold triggerOf
  refine .ite (fun _ => asName_finds.bind fun spec _ => ?_) fun _ => ?_
  · split
    · exact error_finds
    · refine (resolveDevice_finds indexed).bind fun device ⟨d,placed⟩ => ?_
      exact (resolveEvent_finds placed).bind fun a ha =>
        .pure ⟨d,List.mem_of_getElem? placed.1,placed.2,ha⟩
  refine .ite (fun _ => payload_finds.bind fun c _ => ?_) fun _ => ?_
  · exact shaped_finds indexed fun device kind hd hs => .pure ⟨hd,hs⟩
  refine .ite (fun _ => payload_finds.bind fun c _ => ?_) fun _ => ?_
  · exact shaped_finds indexed fun device kind hd hs =>
      crossBound_finds.bind fun _ _ => .pure ⟨hd,hs⟩
  refine .ite (fun _ => payload_finds.bind fun r _ => ?_) fun _ => ?_
  · exact shaped_finds indexed fun device kind hd _ => .pure hd
  refine .ite (fun _ => asName_finds.bind fun key _ => .note_bind (.pure trivial)) fun _ => ?_
  refine .ite (fun _ => asName_finds.bind fun name _ => ?_) fun _ => ?_
  · split
    · rename_i schedule hs
      exact .note_bind (.pure ⟨name,hs⟩)
    · exact error_finds
  refine .ite (fun _ => asName_finds.bind fun spec _ => .ite (fun _ => .pure ?_) fun _ => ?_)
    fun _ => error_finds
  · rintro d ⟨⟩
  · refine (resolveDevice_finds indexed).bind fun device ⟨d,placed⟩ => .pure ?_
    rintro _ ⟨⟩
    exact placed.known

theorem trigger_finds (v : Value) :
    Finds (Trigger.WellFormed lw.scope) (lw.trigger context v) :=
  singleEntry_finds.bind fun x _ => triggerOf_finds indexed x.1 x.2

theorem leafCondition_finds (verb : String) (payload : Value) :
    Finds (Condition.WellFormed lw.scope) (lw.leafCondition verb payload context) := by
  unfold leafCondition
  refine .ite (fun _ => asFlag_finds.bind fun up _ => .pure (.sun up)) fun _ => ?_
  refine .ite (fun _ => payload_finds.bind fun s _ => ?_) fun _ => ?_
  · exact declared_finds indexed fun device hd => .pure (.boolEquals _ hd rfl)
  refine .ite (fun _ => payload_finds.bind fun s _ => ?_) fun _ => ?_
  · exact declared_finds indexed fun device hd => .pure (.boolEquals _ hd rfl)
  refine .ite (fun _ => payload_finds.bind fun c _ => ?_) fun _ => ?_
  · refine (resolveDevice_finds indexed).bind fun device ⟨d,placed⟩ => ?_
    refine shapedCapability_finds.bind fun kind hs => parseCmpOp_finds.bind fun op _ => ?_
    exact (requireCap_finds indexed placed).bind fun _ hd => .pure (.compare op _ hd hs)
  refine .ite (fun _ => payload_finds.bind fun c _ => ?_) fun _ => ?_
  · exact declared_finds indexed fun device hd =>
      parseColor_finds.bind fun rgb _ => .pure (.colorEquals _ _ _ hd)
  refine .ite (fun _ => asName_finds.bind fun t _ => parseTime_finds.bind fun minute _ =>
    .pure (.time .ge minute)) fun _ => ?_
  exact .ite (fun _ => asName_finds.bind fun t _ => parseTime_finds.bind fun minute _ =>
    .pure (.time .lt minute)) fun _ => error_finds

theorem commandOf_finds (verb : String) (payload : Value) :
    Finds (Command.WellFormed lw.scope) (lw.commandOf verb payload context) := by
  unfold commandOf
  refine .ite (fun _ => asName_finds.bind fun name _ => ?_) fun _ => ?_
  · exact declared_finds indexed fun device hd => .pure (.device rfl hd)
  refine .ite (fun _ => asName_finds.bind fun name _ => ?_) fun _ => ?_
  · exact declared_finds indexed fun device hd => .pure (.device rfl hd)
  refine .ite (fun _ => payload_finds.bind fun b _ => ?_) fun _ => ?_
  · exact declared_finds indexed fun device hd =>
      parseTransition_finds.bind fun _ _ => .pure (.device rfl hd)
  refine .ite (fun _ => payload_finds.bind fun b _ => ?_) fun _ => ?_
  · exact declared_finds indexed fun device hd => .pure (.device rfl hd)
  refine .ite (fun _ => payload_finds.bind fun b _ => ?_) fun _ => ?_
  · exact declared_finds indexed fun device hd => .pure (.device rfl hd)
  refine .ite (fun _ => payload_finds.bind fun c _ => ?_) fun _ => ?_
  · exact declared_finds indexed fun device hd => parseColor_finds.bind fun _ _ =>
      parseTransition_finds.bind fun _ _ => .pure (.device rfl hd)
  refine .ite (fun _ => payload_finds.bind fun c _ => ?_) fun _ => ?_
  · exact declared_finds indexed fun device hd => parseColorTemperature_finds.bind fun _ _ =>
      parseTransition_finds.bind fun _ _ => .pure (.device rfl hd)
  refine .ite (fun _ => asName_finds.bind fun name _ => ?_) fun _ => ?_
  · split
    · rename_i scene hs
      refine .note_bind (.pure ⟨fun _ h => ?_,fun _ h => ?_⟩)
      · cases h
      · cases h
        exact ⟨name,hs⟩
    · exact error_finds
  refine .ite (fun _ => payload_finds.bind fun s _ => .note_bind ?_) fun _ => ?_
  · exact parseDuration_finds.bind fun _ _ => .pure (.timer rfl)
  refine .ite (fun _ => asName_finds.bind fun key _ => .note_bind (.pure (.timer rfl))) fun _ => ?_
  refine .ite (fun _ => payload_finds.bind fun ir _ => ?_) fun _ => error_finds
  exact declared_finds indexed fun device hd => .pure (.device rfl hd)

theorem command_finds (v : Value) :
    Finds (Command.WellFormed lw.scope) (lw.command context v) :=
  singleEntry_finds.bind fun x _ => commandOf_finds indexed x.1 x.2

end Bodies

section Conditions
variable {lw : Lowerer} (context : String)

mutual
theorem condition_finds (indexed : lw.Indexed) (v : Value) :
    Finds (Condition.WellFormed lw.scope) (lw.condition context v) := by
  match v with
  | .mapping [(k,payload)] =>
    rw [condition]
    split
    · exact error_finds
    · refine .ite (fun _ => ?_) fun _ => .ite (fun _ => ?_) fun _ => .ite (fun _ => ?_) fun _ => ?_
      · exact (conditionList_finds indexed _ payload).bind fun cs h => .pure (.and h)
      · exact (conditionList_finds indexed _ payload).bind fun cs h => .pure (.or h)
      · exact (condition_finds indexed payload).bind fun c h => .pure (.not h)
      · exact leafCondition_finds indexed _ payload
  | .mapping [] | .mapping (_ :: _ :: _) | .null | .bool _ | .number _ | .string _ | .sequence _
  | .tagged _ _ =>
    exact error_finds

theorem conditionList_finds (indexed : lw.Indexed) (node : String) (v : Value) :
    Finds (fun cs => ∀ c ∈ cs, Condition.WellFormed lw.scope c)
      (lw.conditionList context node v) := by
  match v with
  | .tagged _ v => exact conditionList_finds indexed node v
  | .sequence items => exact conditionItems_finds indexed items
  | .null | .bool _ | .number _ | .string _ | .mapping _ => exact error_finds

theorem conditionItems_finds (indexed : lw.Indexed) (items : List Value) :
    Finds (fun cs => ∀ c ∈ cs, Condition.WellFormed lw.scope c)
      (lw.conditionItems context items) := by
  match items with
  | [] => exact .pure (by simp)
  | v :: vs =>
    intro hq
    obtain ⟨c,hc,hw⟩ := condition_finds indexed v fun n hn => hq n (List.mem_append_left _ hn)
    obtain ⟨cs,hcs,hws⟩ :=
      conditionItems_finds indexed vs fun n hn => hq n (List.mem_append_right _ hn)
    refine ⟨c :: cs,?_,List.forall_mem_cons.mpr ⟨hw,hws⟩⟩
    simp [conditionItems,hc,hcs]
end

end Conditions

end Lowerer

open Resolve

/-- The device table holds the position of each device it names. -/
theorem resolveDevices_indexed (adapterIndex : HashMap String ℕ)
    (entries : List (String × RawDevice)) (name : String) (id : DeviceId)
    (h : (resolveDevices adapterIndex entries).deviceIndex.lookup name = some id) :
    ∃ d, (resolveDevices adapterIndex entries).devices[id.val]? = some d ∧ d.id = id := by
  induction entries using List.reverseRecOn with
  | nil => cases h
  | append_singleton entries entry ih =>
    rw [resolveDevices_concat] at h ⊢
    generalize resolveDevices adapterIndex entries = pass at ih h ⊢
    rw [resolveDevice] at h ⊢
    dsimp only at h ⊢
    cases hl : adapterIndex.lookup entry.2.adapter with
    | none =>
      rw [hl] at h
      exact ih h
    | some adapter =>
      rw [hl] at h
      dsimp only at h ⊢
      rw [HashMap.lookup_insert] at h
      split_ifs at h with hn
      · cases h
        exact ⟨_,List.getElem?_concat_length,rfl⟩
      · obtain ⟨d,hd,he⟩ := ih h
        refine ⟨d,?_,he⟩
        rw [List.getElem?_append_left (List.getElem?_eq_some_iff.mp hd).1,hd]

/-- The name of a device leads to it. -/
theorem resolveDevices_named (adapterIndex : HashMap String ℕ) {entries : List (String × RawDevice)}
    (nodup : (entries.map Prod.fst).Nodup) {d : DeviceDef}
    (hd : d ∈ (resolveDevices adapterIndex entries).devices) :
    (resolveDevices adapterIndex entries).deviceIndex.lookup d.name = some d.id ∧
      (resolveDevices adapterIndex entries).devices[d.id.val]? = some d := by
  induction entries using List.reverseRecOn with
  | nil => cases hd
  | append_singleton entries entry ih =>
    rw [List.map_append,List.nodup_append] at nodup
    have hr := resolveDevices_resolved adapterIndex entries
    rw [resolveDevices_concat] at hd ⊢
    generalize resolveDevices adapterIndex entries = pass at ih hr hd ⊢
    rw [resolveDevice] at hd ⊢
    dsimp only at hd ⊢
    cases hl : adapterIndex.lookup entry.2.adapter with
    | none =>
      rw [hl] at hd
      exact ih nodup.1 hd
    | some adapter =>
      rw [hl] at hd
      rcases List.mem_append.mp hd with hd | hd
      · -- an earlier device has the name of an earlier entry
        obtain ⟨named,placed⟩ := ih nodup.1 hd
        obtain ⟨device,hm,hname,-⟩ := hr.sound d hd
        have hne : d.name ≠ entry.1 := by
          rw [← hname]
          exact nodup.2.2 _ (List.mem_map_of_mem hm) _ (List.mem_singleton_self _)
        refine ⟨?_,?_⟩
        · dsimp only
          rw [HashMap.lookup_insert,if_neg hne,named]
        · exact (List.getElem?_append_left (List.getElem?_eq_some_iff.mp placed).1).trans placed
      · cases List.mem_singleton.mp hd
        refine ⟨?_,List.getElem?_concat_length⟩
        dsimp only
        rw [HashMap.lookup_insert,if_pos rfl]

theorem lowerer_indexed (lib : Libraries) (raw : RawConfig) : (lowerer lib raw).Indexed :=
  ⟨fun name id h => resolveDevices_indexed _ _ name id h,rfl⟩

def CompiledConfig.scope (cfg : CompiledConfig) : Scope where
  devices := cfg.devices
  clockDevice := cfg.clockDevice
  scene s := ∃ x ∈ cfg.scenes, x.id = s
  schedule s := ∃ x ∈ cfg.schedules, x.id = s

variable {lib : Libraries} {π : HashOrder} {raw : RawConfig} {cfg : CompiledConfig}

theorem desugarForms_error {context : String} {forms : List (Option String × String)}
    {d : Diagnostic} (h : desugarForms context forms = .error d) : d.isError = true := by
  induction forms with
  | nil => cases h
  | cons form forms ih =>
    obtain ⟨_ | hhmm,dow⟩ := form
    · exact ih h
    · simp only [desugarForms] at h
      split at h
      · cases h
        rfl
      · cases hr : desugarForms context forms with
        | ok crons =>
          rw [hr] at h
          cases h
        | error d' =>
          rw [hr] at h
          cases h
          exact ih hr

/-- A schedule is only refused with an error. -/
theorem resolveSchedule_error {name : String} {x : RawSchedule} {d : Diagnostic}
    (h : resolveSchedule lib name x = .error d) : d.isError = true := by
  simp only [resolveSchedule] at h
  split at h
  · rename_i hs
    cases h
    exact desugarForms_error hs
  · split at h
    · cases h
      rfl
    · split at h
      · cases h
        rfl
      · cases h
    · cases h
      rfl

/-- Every schedule of an accepted config has its cron expression. -/
theorem schedules_of_accepted (h : resolve lib π raw = .ok cfg) :
    cfg.schedules = schedules lib raw ∧
      ∀ x ∈ raw.schedules.entries, ∃ cron, resolveSchedule lib x.1 x.2 = .ok cron := by
  have hd := (resolve_eq_ok h).1
  refine ⟨?_,fun x hx => ?_⟩
  · rw [resolve] at h
    split_ifs at h
    cases h
    rfl
  · cases hr : resolveSchedule lib x.1 x.2 with
    | ok cron => exact ⟨cron,rfl⟩
    | error d =>
      have hm : d ∈ scheduleDiagnostics lib raw := List.mem_filterMap.mpr ⟨x,hx,by rw [hr]⟩
      have hf := hd d ?_
      · rw [resolveSchedule_error hr] at hf
        cases hf
      · simp only [diagnostics,List.mem_append]
        exact .inl (.inl (.inl (.inl (.inl (.inl (.inl (.inl (.inl (.inr hm)))))))))

/-- The schedule index numbers the schedules by position. -/
theorem lookup_scheduleIndex (raw : RawConfig) (name : String) (schedule : ScheduleId) :
    (scheduleIndex raw).lookup name = some schedule ↔
      raw.schedules.names[schedule.val]? = some name := by
  rw [scheduleIndex,HashMap.lookup_ofKeys raw.schedules.names_nodup]
  constructor
  · rintro ⟨i,hi,rfl⟩
    exact hi
  · exact fun hi => ⟨schedule.val,hi,rfl⟩

/-- A position in a name map is that of an entry. -/
theorem NameMap.exists_name_iff {V : Type} (m : NameMap V) (i : ℕ) :
    (∃ name, m.names[i]? = some name) ↔ ∃ x, m.entries[i]? = some x := by
  simp [NameMap.names]

/-- What the bodies of an accepted config could refer to is what it holds. -/
theorem scope_of_accepted (h : resolve lib π raw = .ok cfg) :
    (lowerer lib raw).scope = cfg.scope := by
  obtain ⟨-,-,hd,hs,-,hc⟩ := resolve_eq_ok h
  obtain ⟨hsch,hok⟩ := schedules_of_accepted h
  rw [Lowerer.scope,CompiledConfig.scope,hd,hs,hc,hsch]
  congr 1
  · funext s
    simp only [lowerer,lookup_sceneIndex,NameMap.exists_name_iff,eq_iff_iff]
    constructor
    · rintro ⟨x,hx⟩
      have hm : (x,s.val) ∈ raw.scenes.entries.zipIdx := List.mem_zipIdx_iff_getElem?.mpr hx
      exact ⟨_,List.mem_map_of_mem hm,rfl⟩
    · rintro ⟨x,hx,rfl⟩
      obtain ⟨body,hb,-⟩ := mem_scenes.mp hx
      exact ⟨_,hb⟩
  · funext s
    simp only [lowerer,lookup_scheduleIndex,NameMap.exists_name_iff,eq_iff_iff]
    constructor
    · rintro ⟨x,hx⟩
      obtain ⟨cron,hr⟩ := hok x (List.mem_of_getElem? hx)
      refine ⟨⟨s,x.1,cron⟩,List.mem_filterMap.mpr ⟨(x,s.val),?_,by rw [hr]⟩,rfl⟩
      exact List.mem_zipIdx_iff_getElem?.mpr hx
    · rintro ⟨x,hx,rfl⟩
      obtain ⟨⟨entry,i⟩,hm,hy⟩ := List.mem_filterMap.mp hx
      dsimp only at hy
      split at hy
      · cases hy
        exact ⟨entry,List.mem_zipIdx_iff_getElem?.mp hm⟩
      · cases hy

end Domiform
