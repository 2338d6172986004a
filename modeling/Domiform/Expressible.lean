import Domiform.Compiled
import Domiform.Routing

/-! What a config may command and what an adapter can say. The compiler only asks that a device
declares the capability; an adapter has commands it cannot translate, and reports each of them as
permanently failed when it is dispatched. -/
namespace Domiform
open Library Build Resolve

/-- Every command of a compiled config. -/
def CompiledConfig.commands (cfg : CompiledConfig) : List Command :=
  cfg.rules.flatMap Rule.commands ++ cfg.scenes.flatMap CompiledScene.commands

namespace Command

/-- A command that sets a device to something, whatever it was. -/
def isAbsolute : Command → Bool
  | setSwitch _ _ | setBrightness _ _ _ | setColor _ _ _ _ _ | setColorTemperature _ _ _
  | sendIrCode _ _ => true
  | _ => false

/-- A level or a color, which a multi-gang load does not have. -/
def isRootOnly : Command → Bool
  | setBrightness _ _ _ | setColor _ _ _ _ _ | setColorTemperature _ _ _ => true
  | _ => false

def isInfrared : Command → Bool
  | sendIrCode _ _ => true
  | _ => false

end Command

section Translations
variable {cmd : Command}

theorem commandToPublish_isSome_iff (h : cmd.isAbsolute = true) (base friendly : String)
    (channel : LoadChannel) : (Zigbee2Mqtt.commandToPublish base friendly channel cmd).isSome ↔
      ¬(channel.isSome = true ∧ cmd.isRootOnly = true) := by
  cases cmd with
  | setSwitch | sendIrCode => simp [Zigbee2Mqtt.commandToPublish,Command.isRootOnly]
  | setBrightness | setColor | setColorTemperature =>
    cases channel <;> simp [Zigbee2Mqtt.commandToPublish,Command.isRootOnly]
  | _ => cases h

theorem commandToCluster_isSome_iff (h : cmd.isAbsolute = true) :
    (Matter.commandToCluster cmd).isSome ↔ ¬cmd.isInfrared = true := by
  cases cmd with
  | setSwitch | setBrightness | setColor | setColorTemperature | sendIrCode =>
    simp [Matter.commandToCluster,Command.isInfrared]
  | _ => cases h

theorem commandToSetValue_isSome_iff (h : cmd.isAbsolute = true) (kind : DeviceKind) :
    (ZwaveJs.commandToSetValue kind cmd).isSome ↔ ¬cmd.isInfrared = true := by
  cases cmd with
  | setSwitch | setBrightness | setColor | setColorTemperature | sendIrCode =>
    cases kind <;> simp [ZwaveJs.commandToSetValue,Command.isInfrared]
  | _ => cases h

end Translations

/-- A device with a load channel: every endpoint but 0. -/
theorem normalizeChannel_isSome {endpoint : Option UInt16} :
    (Zigbee2Mqtt.normalizeChannel endpoint).isSome = true ↔ ∃ n, endpoint = some n ∧ n ≠ 0 := by
  cases endpoint with
  | none => simp [Zigbee2Mqtt.normalizeChannel]
  | some n => by_cases h : n = 0 <;> simp [Zigbee2Mqtt.normalizeChannel,h]

section Dispatch
variable {device : DeviceId} {cmd : Command} (target : cmd.targetDevice = some device)
include target

/-- A dispatch is refused as unsupported when there is no translation, and never otherwise. -/
theorem zigbee2mqtt_dispatch_iff {T : Type} [MqttTransport T] {a : Zigbee2MqttAdapter T}
    {t : DeviceTarget} (known : a.byId.lookup device = some t) :
    (a.dispatch cmd).1 = .permanent "command unsupported by zigbee2mqtt" ↔
      Zigbee2Mqtt.commandToPublish a.baseTopic t.friendly t.channel cmd = none := by
  simp only [Zigbee2MqttAdapter.dispatch,target,known]
  cases Zigbee2Mqtt.commandToPublish a.baseTopic t.friendly t.channel cmd with
  | none => simp
  | some p =>
    dsimp only
    split <;> simp

theorem matter_dispatch_iff {C : Type} [MatterController C] {a : MatterAdapter C}
    {address : NodeAddress} (known : a.byId.lookup device = some address) :
    (a.dispatch cmd).1 = .permanent "command unsupported by matter" ↔
      Matter.commandToCluster cmd = none := by
  simp only [MatterAdapter.dispatch,target,known]
  cases Matter.commandToCluster cmd with
  | none => simp
  | some c =>
    dsimp only
    split <;> simp

theorem zwave_dispatch_iff {C : Type} [ZwaveClient C] {a : ZwaveAdapter C} {address : NodeAddress}
    {kind : DeviceKind} (known : a.byId.lookup device = some (address,kind)) :
    (a.dispatch cmd).1 = .permanent "command unsupported by z-wave" ↔
      ZwaveJs.commandToSetValue kind cmd = none := by
  simp only [ZwaveAdapter.dispatch,target,known]
  cases ZwaveJs.commandToSetValue kind cmd with
  | none => simp
  | some set =>
    dsimp only
    split <;> simp

end Dispatch

variable {lib : Libraries} {π : HashOrder} {raw : RawConfig} {cfg : CompiledConfig}

/-- The entry of a zigbee2mqtt device. -/
theorem zigbee2mqtt_target (accepted : resolve lib π raw = .ok cfg) {d : DeviceDef}
    (hd : d ∈ cfg.devices) (order : HashOrder) {T : Type}
    (connect : List Char → ℕ → List String → T) (config : Value) :
    (Zigbee2MqttAdapter.build order connect config (devicesOf cfg d.adapter)).byId.lookup d.id =
      some ⟨d.friendly,Zigbee2Mqtt.normalizeChannel d.endpoint⟩ := by
  have hfold : (Zigbee2MqttAdapter.build order connect config (devicesOf cfg d.adapter)).byId =
      ((devicesOf cfg d.adapter).map fun d =>
        (d.id,(⟨d.friendly,Zigbee2Mqtt.normalizeChannel d.endpoint⟩ : DeviceTarget))).foldl
          (fun m x => m.insert x.1 x.2) ∅ := by
    rw [List.foldl_map]
    exact List.foldl_map
  have hnodup : ((devicesOf cfg d.adapter).map DeviceDef.id).Nodup :=
    (device_ids_nodup accepted).sublist (List.filter_sublist.map _)
  rw [hfold,HashMap.lookup_foldl_insert (by rwa [List.map_map])]
  exact .inl (List.mem_map.mpr ⟨d,mem_devicesOf.mpr ⟨hd,rfl⟩,rfl⟩)

/-- The commands a device cannot be told through its adapter: a level or a color on one load of a
multi-gang zigbee2mqtt device, infrared on Matter and Z-Wave. -/
def Inexpressible (p : Plugin) (d : DeviceDef) (cmd : Command) : Prop :=
  match p with
  | .zigbee2mqtt => (∃ n, d.endpoint = some n ∧ n ≠ 0) ∧ cmd.isRootOnly = true
  | .matter | .zwavejs => cmd.isInfrared = true
  | _ => False

/-- A command is for a device of the config. -/
theorem device_of_command (accepted : resolve lib π raw = .ok cfg) {cmd : Command}
    (hc : cmd ∈ cfg.commands) {device : DeviceId} (target : cmd.targetDevice = some device) :
    ∃ d ∈ cfg.devices, d.id = device := by
  obtain ⟨hrules,hscenes⟩ := accepted_wellFormed accepted
  have hw : cmd.WellFormed cfg.scope := by
    rcases List.mem_append.mp hc with hc | hc
    · obtain ⟨r,hr,hc⟩ := List.mem_flatMap.mp hc
      exact (hrules r hr).commands cmd hc
    · obtain ⟨s,hs,hc⟩ := List.mem_flatMap.mp hc
      exact hscenes s hs cmd hc
  rw [Command.targetDevice_eq_needs] at target
  obtain ⟨⟨device',kind⟩,hn,rfl⟩ := Option.map_eq_some_iff.mp target
  obtain ⟨d,hd,he,-⟩ := hw.declared _ hn
  exact ⟨d,hd,he⟩

theorem Command.isAbsolute_target {cmd : Command} (h : cmd.isAbsolute = true) :
    ∃ device, cmd.targetDevice = some device := by
  cases cmd with
  | setSwitch | setBrightness | setColor | setColorTemperature | sendIrCode => exact ⟨_,rfl⟩
  | _ => cases h

/-- An absolute command of an accepted config has a translation, and is never refused as
unsupported, except where its device cannot be told it. -/
theorem commands_expressible_iff (accepted : resolve lib π raw = .ok cfg) {cmd : Command}
    (hc : cmd ∈ cfg.commands) (absolute : cmd.isAbsolute = true) :
    ∃ d ∈ cfg.devices, ∃ x, cmd.targetDevice = some d.id ∧
      cfg.adapters[d.adapter]? = some x ∧
      (x.plugin = some .zigbee2mqtt → ∀ (order : HashOrder) {T : Type} [MqttTransport T]
        (connect : List Char → ℕ → List String → T),
        let a := Zigbee2MqttAdapter.build order connect x.config (devicesOf cfg d.adapter)
        ∃ t, a.byId.lookup d.id = some t ∧
          ((Zigbee2Mqtt.commandToPublish a.baseTopic t.friendly t.channel cmd).isSome ↔
            ¬Inexpressible .zigbee2mqtt d cmd) ∧
          ((a.dispatch cmd).1 = .permanent "command unsupported by zigbee2mqtt" ↔
            Inexpressible .zigbee2mqtt d cmd)) ∧
      (x.plugin = some .matter → ∀ {C : Type} [MatterController C] (connect : String → C),
        let a := MatterAdapter.build connect x.config (devicesOf cfg d.adapter)
        ∃ address, a.byId.lookup d.id = some address ∧
          ((Matter.commandToCluster cmd).isSome ↔ ¬Inexpressible .matter d cmd) ∧
          ((a.dispatch cmd).1 = .permanent "command unsupported by matter" ↔
            Inexpressible .matter d cmd)) ∧
      (x.plugin = some .zwavejs → ∀ {C : Type} [ZwaveClient C] (connect : String → C),
        let a := ZwaveAdapter.build connect x.config (devicesOf cfg d.adapter)
        ∃ address kind, a.byId.lookup d.id = some (address,kind) ∧
          ((ZwaveJs.commandToSetValue kind cmd).isSome ↔ ¬Inexpressible .zwavejs d cmd) ∧
          ((a.dispatch cmd).1 = .permanent "command unsupported by z-wave" ↔
            Inexpressible .zwavejs d cmd)) := by
  obtain ⟨device,target⟩ := Command.isAbsolute_target absolute
  obtain ⟨d,hd,rfl⟩ := device_of_command accepted hc target
  obtain ⟨device',-,adapter,-,-,-,filed⟩ := adapter_of_device accepted hd
  refine ⟨d,hd,_,target,filed,?_,?_,?_⟩
  · intro _ order T _ connect a
    have known := zigbee2mqtt_target accepted hd order connect (adapterDef adapter).config
    have htranslated := commandToPublish_isSome_iff absolute a.baseTopic d.friendly
      (Zigbee2Mqtt.normalizeChannel d.endpoint)
    rw [normalizeChannel_isSome] at htranslated
    refine ⟨_,known,htranslated,?_⟩
    rw [zigbee2mqtt_dispatch_iff target known,← Option.not_isSome_iff_eq_none]
    exact (not_congr htranslated).trans not_not
  · intro plugin C _ connect a
    obtain ⟨address,known,-⟩ := matter_tables accepted hd filed plugin connect
    have htranslated := commandToCluster_isSome_iff absolute
    refine ⟨address,known,htranslated,?_⟩
    rw [matter_dispatch_iff target known,← Option.not_isSome_iff_eq_none]
    exact (not_congr htranslated).trans not_not
  · intro plugin C _ connect a
    obtain ⟨_,-,hl,-⟩ := zwave_tables accepted hd filed plugin connect
    obtain ⟨⟨address,kind⟩,known,-⟩ := Option.map_eq_some_iff.mp hl
    have htranslated := commandToSetValue_isSome_iff absolute kind
    refine ⟨address,kind,known,htranslated,?_⟩
    rw [zwave_dispatch_iff target known,← Option.not_isSome_iff_eq_none]
    exact (not_congr htranslated).trans not_not

/-- One load of a switch, which a scene dims. -/
def dimConfig (endpoint : Option UInt16) : RawConfig where
  system := .default
  adapters := .single "bus" ⟨"zigbee2mqtt",.mapping [(.string "url",.string "mqtt://broker")]⟩
  devices := .single "lamp" ⟨"bus",some "lamp",endpoint,["brightness"],.empty,none,none,none⟩
  scenes := .single "dim" [.mapping [(.string "set_brightness",.mapping [
    (.string "device",.string "lamp"),(.string "value",.number (.posInt 20))])]]
  schedules := .empty
  rules := .empty

/-- A broker that takes everything. -/
structure Sink where

instance : MqttTransport Sink where
  publish t _ _ := (.ok (),t)
  poll t := ([],t)

/-- The single load of a lamp is dimmed. -/
theorem single_load_is_dimmed : ∃ cfg, ∃ d ∈ cfg.devices, ∃ x cmd,
    resolve plainLibraries .identity (dimConfig none) = .ok cfg ∧ cmd ∈ cfg.commands ∧
      cfg.adapters[d.adapter]? = some x ∧
      let a := Zigbee2MqttAdapter.build .identity (fun _ _ _ => Sink.mk) x.config
        (devicesOf cfg d.adapter)
      (a.dispatch cmd).1 ≠ .permanent "command unsupported by zigbee2mqtt" := by
  obtain ⟨cfg,h,hc,hd⟩ : ∃ cfg,
      resolve plainLibraries .identity (dimConfig none) = .ok cfg ∧
      Command.setBrightness ⟨0⟩ 20 none ∈ cfg.commands ∧
      ∀ d ∈ cfg.devices, d.endpoint = none ∧ ∀ x, cfg.adapters[d.adapter]? = some x →
        x.plugin = some .zigbee2mqtt :=
    ⟨_,rfl,List.mem_singleton_self _,by
      intro d hd
      cases List.mem_singleton.mp hd
      exact ⟨rfl,fun x hx => by cases hx; rfl⟩⟩
  obtain ⟨d,hm,x,-,filed,hz,-⟩ := commands_expressible_iff h hc rfl
  obtain ⟨hend,hplugin⟩ := hd d hm
  obtain ⟨t,-,-,hdispatch⟩ := hz (hplugin x filed) .identity fun _ _ _ => Sink.mk
  refine ⟨cfg,d,hm,x,_,h,hc,filed,fun hp => ?_⟩
  obtain ⟨⟨n,hn,-⟩,-⟩ := hdispatch.mp hp
  rw [hend] at hn
  cases hn

/-- One load of several is not: the config is accepted, and every dispatch of the scene's command is
refused. -/
theorem load_channel_cannot_be_dimmed : ∃ cfg, ∃ d ∈ cfg.devices, ∃ x cmd,
    resolve plainLibraries .identity (dimConfig (some 2)) = .ok cfg ∧ cmd ∈ cfg.commands ∧
      cmd.isAbsolute = true ∧ cmd.targetDevice = some d.id ∧
      cfg.adapters[d.adapter]? = some x ∧ x.plugin = some .zigbee2mqtt ∧
      let a := Zigbee2MqttAdapter.build .identity (fun _ _ _ => Sink.mk) x.config
        (devicesOf cfg d.adapter)
      ∃ t, a.byId.lookup d.id = some t ∧
        Zigbee2Mqtt.commandToPublish a.baseTopic t.friendly t.channel cmd = none ∧
        (a.dispatch cmd).1 = .permanent "command unsupported by zigbee2mqtt" := by
  obtain ⟨cfg,h,d,hd,x,hx,hp,hc,ht,hk⟩ : ∃ cfg,
      resolve plainLibraries .identity (dimConfig (some 2)) = .ok cfg ∧
      ∃ d ∈ cfg.devices, ∃ x, cfg.adapters[d.adapter]? = some x ∧ x.plugin = some .zigbee2mqtt ∧
        Command.setBrightness ⟨0⟩ 20 none ∈ cfg.commands ∧
        (Command.setBrightness ⟨0⟩ 20 none).targetDevice = some d.id ∧
        (Zigbee2MqttAdapter.build .identity (fun _ _ _ => Sink.mk) x.config
          (devicesOf cfg d.adapter)).byId.lookup d.id = some ⟨"lamp",some 2⟩ :=
    ⟨_,rfl,_,List.mem_singleton_self _,_,rfl,rfl,List.mem_singleton_self _,rfl,rfl⟩
  exact ⟨cfg,d,hd,x,_,h,hc,rfl,ht,hx,hp,_,hk,rfl,(zigbee2mqtt_dispatch_iff ht hk).mpr rfl⟩

end Domiform
