import Domiform.Compile.Lower

/-! Semantic analysis: the raw file to a resolved object graph. Names become ids in the order of
the names, bodies are lowered, and every finding is collected before the verdict. -/
namespace Domiform
open Library

structure SystemConfig where
  name : Option String
  timezone : String
  latitude : Float
  longitude : Float
  runtimeStoragePath : Option String
  healthcheck : Option RawHealthcheck
  restApi : Option RawRestApi

structure AdapterDef where
  name : String
  plugin : Option Plugin
  config : Value

structure CompiledScene where
  id : SceneId
  name : String
  commands : List Command

structure CompiledSchedule where
  id : ScheduleId
  name : String
  cron : String

structure CompiledConfig where
  system : SystemConfig
  adapters : List AdapterDef
  devices : List DeviceDef
  scenes : List CompiledScene
  schedules : List CompiledSchedule
  rules : List Rule
  warnings : List Diagnostic
  adapterIndex : HashMap String ℕ
  deviceIndex : HashMap String DeviceId
  sceneIndex : HashMap String SceneId
  scheduleIndex : HashMap String ScheduleId
  clockDevice : DeviceId

namespace Resolve

def adapterDef (entry : String × RawAdapter) : AdapterDef :=
  ⟨entry.1,Plugin.pluginFor entry.2.kind,entry.2.config⟩

def adapterContext (name : String) : String := "adapter '" ++ name ++ "'"

/-- An unknown type, or what the plugin says of its config block. -/
def adapterDiagnostics (lib : Libraries) (entry : String × RawAdapter) : List Diagnostic :=
  match Plugin.pluginFor entry.2.kind with
  | none => [(Diagnostic.error "E_UNKNOWN_ADAPTER_TYPE"
      ("unknown adapter type '" ++ entry.2.kind ++ "'")).place (adapterContext entry.1)]
  | some p => p.validateConfig lib entry.2.config (adapterContext entry.1)

/-- The devices resolved so far; `nextAction` numbers the declared events. -/
structure DevicePass where
  devices : List DeviceDef
  deviceIndex : HashMap String DeviceId
  nextAction : ℕ
  diags : List Diagnostic

def deviceContext (name : String) : String := "device '" ++ name ++ "'"

def deviceDiagnostics (adapterIndex : HashMap String ℕ) (name : String) (raw : RawDevice) :
    List Diagnostic :=
  (match adapterIndex.lookup raw.adapter with
  | some _ => []
  | none => [(Diagnostic.error "E_UNKNOWN_ADAPTER"
      ("references unknown adapter '" ++ raw.adapter ++ "'")).place (deviceContext name)]) ++
  ((raw.capabilities.filter fun cap => (parseCapability cap).isNone).map fun cap =>
    (Diagnostic.error "E_UNKNOWN_CAPABILITY" ("unknown capability '" ++ cap ++ "'")).place
      (deviceContext name)) ++
  if raw.capabilities.isEmpty && raw.events.entries.isEmpty then
    [(Diagnostic.warning "E_INERT_DEVICE" ("device declares neither capabilities nor events, so " ++
      "it can't be commanded or trigger rules")).place (deviceContext name)]
  else []

/-- One device: it is kept when its adapter is known. -/
def resolveDevice (adapterIndex : HashMap String ℕ) (pass : DevicePass)
    (entry : String × RawDevice) : DevicePass :=
  let (name,raw) := entry
  let events := raw.events.entries.zipIdx.map fun x =>
    (⟨⟨pass.nextAction+x.2⟩,x.1.1,x.1.2⟩ : DeviceEvent)
  let pass :=
    { pass with
      nextAction := pass.nextAction+raw.events.entries.length
      diags := pass.diags ++ deviceDiagnostics adapterIndex name raw }
  match adapterIndex.lookup raw.adapter with
  | none => pass
  | some adapter =>
    let id : DeviceId := ⟨pass.devices.length⟩
    let device : DeviceDef :=
      { id
        name
        adapter
        address := raw.address
        endpoint := raw.endpoint
        capabilities := raw.capabilities.filterMap parseCapability
        events
        metadata := ⟨raw.manufacturer,raw.model,raw.room⟩ }
    { pass with
      devices := pass.devices ++ [device]
      deviceIndex := pass.deviceIndex.insert name id }

def resolveDevices (adapterIndex : HashMap String ℕ) (entries : List (String × RawDevice)) :
    DevicePass :=
  entries.foldl (resolveDevice adapterIndex) ⟨[],∅,0,[]⟩

theorem resolveDevices_concat (adapterIndex : HashMap String ℕ) (entries : List (String × RawDevice))
    (entry : String × RawDevice) : resolveDevices adapterIndex (entries ++ [entry]) =
      resolveDevice adapterIndex (resolveDevices adapterIndex entries) entry := by
  rw [resolveDevices,List.foldl_append]
  rfl

def scheduleContext (name : String) : String := "schedule '" ++ name ++ "'"

/-- `"HH:MM"` and a day-of-week field as a cron expression. -/
def desugarTime (hhmm dow : String) : Option String :=
  (clockOf hhmm).map fun t => toString t.2 ++ " " ++ toString t.1 ++ " * * " ++ dow

/-- The sugar fields that are set, desugared in order; a time that does not parse ends it. -/
def desugarForms (context : String) : List (Option String × String) → Except Diagnostic (List String)
  | [] => .ok []
  | (none,_) :: rest => desugarForms context rest
  | (some hhmm,dow) :: rest =>
    match desugarTime hhmm dow with
    | none => .error ((Diagnostic.error "E_BAD_TIME"
        ("invalid time '" ++ hhmm ++ "' (expected HH:MM)")).place context)
    | some cron => (desugarForms context rest).map (cron :: ·)

/-- Exactly one of `cron`, `daily`, `weekday`, `weekend`, as a cron expression the parser takes. -/
def resolveSchedule (lib : Libraries) (name : String) (raw : RawSchedule) :
    Except Diagnostic String :=
  let context := scheduleContext name
  match desugarForms context [(raw.daily,"*"),(raw.weekday,"1-5"),(raw.weekend,"0,6")] with
  | .error d => .error d
  | .ok sugar =>
    match raw.cron.toList ++ sugar with
    | [] => .error ((Diagnostic.error "E_BAD_SCHEDULE"
        "schedule needs one of: cron, daily, weekday, weekend").place context)
    | [cron] =>
      match lib.cronError cron with
      | some e => .error ((Diagnostic.error "E_BAD_CRON"
          ("invalid cron '" ++ cron ++ "': " ++ e)).place context)
      | none => .ok cron
    | _ => .error ((Diagnostic.error "E_BAD_SCHEDULE"
        "schedule must set exactly one of: cron, daily, weekday, weekend").place context)

def sceneContext (name : String) : String := "scene '" ++ name ++ "'"

def ruleContext (name : String) : String := "rule '" ++ name ++ "'"

/-- A rule with its id, when its trigger and its condition lower; a bad `for:` is left out. -/
def lowerRule (lw : Lowerer) (name : String) (id : ℕ) (raw : RawRule) : Lower (Option Rule) :=
  let context := ruleContext name
  let trigger := lw.trigger context raw.trigger
  let condition :=
    match raw.condition with
    | some c => lw.condition context c
    | none => pure .always
  let commands := lw.commands context raw.commands
  let notes := trigger.notes ++ condition.notes ++ commands.notes
  match trigger.value,condition.value,commands.value with
  | some trigger,some condition,some commands =>
    let duration : Lower Millis :=
      match raw.forDuration with
      | some d => Lowerer.forDuration d trigger context
      | none => .silent
    ⟨some (some ⟨⟨id⟩,name,trigger,condition,commands,duration.value⟩),notes ++ duration.notes⟩
  | _,_,_ => ⟨some none,notes⟩

def unusedAdapters (adapters : List AdapterDef) (devices : List DeviceDef) : List Diagnostic :=
  (adapters.zipIdx.filter fun x =>
    !((x.1.plugin.map Plugin.polarity) == some .northbound) &&
      !(devices.any fun d => d.adapter == x.2)).map fun x =>
    (Diagnostic.warning "E_UNUSED_ADAPTER" "adapter is not used by any device").place
      (adapterContext x.1.name)

/-- A northbound adapter may only expose devices that exist. -/
def exposeDiagnostics (deviceIndex : HashMap String DeviceId) (devices : List DeviceDef)
    (adapter : AdapterDef) : List Diagnostic :=
  let context := adapterContext adapter.name
  match adapter.plugin.bind fun p => p.exposeSpec adapter.config with
  | some (.named names) =>
    (if names.isEmpty then
      [(Diagnostic.warning "E_EMPTY_EXPOSE"
        "adapter exposes no devices, so its consumer sees nothing").place context]
    else []) ++
    (names.filter fun n => (deviceIndex.lookup n).isNone).map fun n =>
      (Diagnostic.error "E_UNKNOWN_EXPOSED_DEVICE" ("exposes unknown device '" ++ n ++ "'")).place
        context
  | some .all =>
    if devices.isEmpty then
      [(Diagnostic.warning "E_EMPTY_EXPOSE"
        "adapter exposes all devices, but none are declared").place context]
    else []
  | none => []

def addressDiagnostics (adapters : List AdapterDef) (device : DeviceDef) : List Diagnostic :=
  match (adapters[device.adapter]?).bind AdapterDef.plugin with
  | some p => p.validateDevice device (deviceContext device.name)
  | none => []

def timezoneDiagnostics (lib : Libraries) (timezone : String) : List Diagnostic :=
  if lib.knownTimezone timezone then []
  else [Diagnostic.error "E_BAD_TIMEZONE" ("unknown timezone '" ++ timezone ++
    "' (expected an IANA name like America/New_York)")]

def systemConfig (raw : RawSystem) : SystemConfig where
  name := raw.name
  timezone := raw.timezone.getD "UTC"
  latitude := raw.latitude.getD 0
  longitude := raw.longitude.getD 0
  runtimeStoragePath := raw.runtimeStoragePath
  healthcheck := raw.healthcheck
  restApi := raw.restApi

/-- Timer keys that are referenced but never scheduled, in hash order. -/
def danglingTimers (π : HashOrder) (notes : List Note) : List Diagnostic :=
  let referenced := notes.filterMap fun n =>
    match n with
    | .referencedKey k => some k
    | _ => none
  let dangling := (π.shuffle 0 referenced.dedup).filter fun k => Note.scheduledKey k ∉ notes
  dangling.map fun k => Diagnostic.warning "E_DANGLING_TIMER"
    ("timer key '" ++ k ++ "' is referenced but never scheduled")

section Pass
variable (lib : Libraries) (raw : RawConfig)

def adapters : List AdapterDef := raw.adapters.entries.map adapterDef

def adapterIndex : HashMap String ℕ := HashMap.ofKeys id raw.adapters.names

def devicePass : DevicePass := resolveDevices (adapterIndex raw) raw.devices.entries

/-- The synthetic clock device sits just past the configured ones. -/
def clockDevice : DeviceId := ⟨(devicePass raw).devices.length⟩

def sceneIndex : HashMap String SceneId := HashMap.ofKeys SceneId.mk raw.scenes.names

def scheduleIndex : HashMap String ScheduleId := HashMap.ofKeys ScheduleId.mk raw.schedules.names

def schedules : List CompiledSchedule :=
  raw.schedules.entries.zipIdx.filterMap fun x =>
    match resolveSchedule lib x.1.1 x.1.2 with
    | .ok cron => some ⟨⟨x.2⟩,x.1.1,cron⟩
    | .error _ => none

def scheduleDiagnostics : List Diagnostic :=
  raw.schedules.entries.filterMap fun x =>
    match resolveSchedule lib x.1 x.2 with
    | .ok _ => none
    | .error d => some d

def lowerer : Lowerer where
  lib := lib
  devices := (devicePass raw).devices
  deviceIndex := (devicePass raw).deviceIndex
  sceneIndex := sceneIndex raw
  scheduleIndex := scheduleIndex raw
  clockDevice := clockDevice raw

def lowerScene (entry : String × List Value) : Lower (List Command) :=
  (lowerer lib raw).commands (sceneContext entry.1) entry.2

def scenes : List CompiledScene :=
  raw.scenes.entries.zipIdx.map fun x =>
    ⟨⟨x.2⟩,x.1.1,(lowerScene lib raw x.1).value.getD []⟩

def lowerRules : Lower (List (Option Rule)) :=
  .collect (fun x => lowerRule (lowerer lib raw) x.1.1 x.2 x.1.2) raw.rules.entries.zipIdx

def rules : List Rule := ((lowerRules lib raw).value.getD []).filterMap id

/-- Everything lowering noted, scenes first. -/
def notes : List Note :=
  raw.scenes.entries.flatMap (fun entry => (lowerScene lib raw entry).notes) ++
    (lowerRules lib raw).notes

def unusedScenes : List Diagnostic :=
  ((scenes lib raw).filter fun s => Note.usedScene s.id ∉ notes lib raw).map fun s =>
    (Diagnostic.warning "E_UNUSED_SCENE" "scene is never activated").place (sceneContext s.name)

def unusedSchedules : List Diagnostic :=
  ((schedules lib raw).filter fun s => Note.referencedSchedule s.id ∉ notes lib raw).map fun s =>
    (Diagnostic.warning "E_UNUSED_SCHEDULE" "schedule triggers no rule").place
      (scheduleContext s.name)

/-- Every diagnostic of the pass, in order. -/
def diagnostics (π : HashOrder) : List Diagnostic :=
  raw.adapters.entries.flatMap (adapterDiagnostics lib) ++
  (devicePass raw).diags ++
  scheduleDiagnostics lib raw ++
  (notes lib raw).filterMap Note.diagnostic? ++
  unusedAdapters (adapters raw) (devicePass raw).devices ++
  (adapters raw).flatMap (exposeDiagnostics (devicePass raw).deviceIndex (devicePass raw).devices) ++
  (devicePass raw).devices.flatMap (addressDiagnostics (adapters raw)) ++
  unusedScenes lib raw ++
  unusedSchedules lib raw ++
  danglingTimers π (notes lib raw) ++
  (if raw.devices.entries.isEmpty then
    [Diagnostic.warning "E_NO_DEVICES" "configuration defines no devices"]
  else []) ++
  timezoneDiagnostics lib (systemConfig raw.system).timezone

end Pass
end Resolve

open Resolve in
/-- `resolve`: one error among the diagnostics rejects the file. -/
def resolve (lib : Libraries) (π : HashOrder) (raw : RawConfig) :
    Except (List Diagnostic) CompiledConfig :=
  if (diagnostics lib raw π).any Diagnostic.isError then .error (diagnostics lib raw π)
  else .ok
    { system := systemConfig raw.system
      adapters := adapters raw
      devices := (devicePass raw).devices
      scenes := scenes lib raw
      schedules := schedules lib raw
      rules := rules lib raw
      warnings := diagnostics lib raw π
      adapterIndex := adapterIndex raw
      deviceIndex := (devicePass raw).deviceIndex
      sceneIndex := sceneIndex raw
      scheduleIndex := scheduleIndex raw
      clockDevice := clockDevice raw }

end Domiform
