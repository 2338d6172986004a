import Domiform.Library.Decimal
import Domiform.Routing

/-! The topic of a zigbee2mqtt device. What a device's own topic carries is heard unless its friendly
name holds a slash, and a command that comes back as a state is the state that was commanded. -/
namespace Domiform
open Library Build Resolve

namespace Zigbee2Mqtt

/-! ### Fields of a payload -/

theorem switchField_injective : Function.Injective switchField := by
  intro a b h
  cases a with
  | none =>
    cases b with
    | none => rfl
    | some n =>
      have hs := congrArg String.toList h
      simp [switchField] at hs
  | some m =>
    cases b with
    | none =>
      have hs := congrArg String.toList h
      simp [switchField] at hs
    | some n => exact congrArg some (UInt16.toNat_inj.mp (numbered_injective "state_l" h))

/-- A load's field is never one that a reading has. -/
theorem switchField_ne {key : String} (h : ¬"state".toList <+: key.toList) (channel : LoadChannel) :
    key ≠ switchField channel := by
  rintro rfl
  refine h ?_
  cases channel with
  | none => exact List.prefix_refl _
  | some n =>
    have hs : (switchField (some n)).toList =
        "state".toList ++ ("_l".toList ++ (toString n.toNat).toList) := by
      simp [switchField]
    rw [hs]
    exact List.prefix_append _ _

/-- The fields of the sensors. -/
def sensorFields : List String :=
  ["occupancy","battery","temperature","humidity","illuminance_lux","illuminance","power","contact",
    "water_leak","smoke"]

theorem sensorFields_apart : ∀ k ∈ sensorFields, ¬"state".toList <+: k.toList := by decide

/-- The payload has one field, a transition apart. -/
def Sole (json : Json) (key : String) (value : Json) : Prop :=
  ∀ k, k ≠ "transition" → json.get k = if k = key then some value else none

theorem sole_ofFields (key : String) (value : Json) : Sole (.ofFields [(key,value)]) key value :=
  fun k _ => Json.lookup_cons key k value []

theorem sole_setTransition {json : Json} {key : String} {value : Json} (h : Sole json key value)
    (transition : Option Millis) : Sole (setTransition json transition) key value := by
  intro k hk
  cases json with
  | object fields =>
    cases transition with
    | none => exact h k hk
    | some ms =>
      have hget : (setTransition (.object fields) (some ms)).get k = fields.lookup k := by
        rw [setTransition,Json.get,Json.lookup_insertField,if_neg hk]
      exact hget.trans (h k hk)
  | _ => exact h k hk

section Slices
variable {json value : Json} {key : String} {device : DeviceId} {channel : LoadChannel}
  {actions : HashMap DeviceId (HashMap String ActionId)}

/-- Nothing but a load's field, the readings and the action is read. -/
theorem slice_congr {json' : Json} (h : ∀ k, k ≠ "transition" → json.get k = json'.get k) :
    jsonToDeviceEvents device channel actions json =
      jsonToDeviceEvents device channel actions json' := by
  have field : switchField channel ≠ "transition" := (switchField_ne (by decide) channel).symm
  simp only [jsonToDeviceEvents,rootStates,h _ field,h "brightness" (by decide),
    h "color" (by decide),h "color_temp" (by decide),h "occupancy" (by decide),
    h "battery" (by decide),h "temperature" (by decide),h "humidity" (by decide),
    h "illuminance_lux" (by decide),h "illuminance" (by decide),h "power" (by decide),
    h "contact" (by decide),h "water_leak" (by decide),h "smoke" (by decide),h "action" (by decide)]

theorem Sole.slice (h : Sole json key value) :
    jsonToDeviceEvents device channel actions json =
      jsonToDeviceEvents device channel actions (.object [(key,value)]) :=
  slice_congr fun k hk => (h k hk).trans (Json.lookup_cons key k value []).symm

theorem get_single (k : String) :
    (Json.object [(key,value)]).get k = if k = key then some value else none :=
  Json.lookup_cons key k value []

/-- A payload of one field that is no sensor's holds at most the reading of a light. -/
theorem rootStates_single (light : ∀ k ∈ sensorFields, k ≠ key) :
    rootStates (.object [(key,value)]) =
      (((if "brightness" = key then some value else none).bind Json.asU64).map fun b =>
        CapabilityState.brightness (levelToPct b)).toList ++
      (((if "color" = key then some value else none).bind parseZ2mColor).map fun c =>
        CapabilityState.color c.1 c.2.1 c.2.2).toList ++
      (((if "color_temp" = key then some value else none).bind Json.asU64).map fun ct =>
        CapabilityState.colorTemperature (UInt16.ofNat (min ct 65535))).toList := by
  have absent {k : String} (hk : k ∈ sensorFields) : (Json.object [(key,value)]).get k = none := by
    rw [get_single,if_neg (light k hk)]
  simp only [rootStates,@absent "occupancy" (by decide),@absent "battery" (by decide),
    @absent "temperature" (by decide),@absent "humidity" (by decide),
    @absent "illuminance_lux" (by decide),@absent "illuminance" (by decide),
    @absent "power" (by decide),@absent "contact" (by decide),@absent "water_leak" (by decide),
    @absent "smoke" (by decide),get_single]
  simp only [Option.bind_none,Option.map_none,Option.toList_none,Option.orElse_none,List.append_nil]

/-- The state of a load says nothing else. -/
theorem slice_load (c : LoadChannel) (text : String) :
    jsonToDeviceEvents device channel actions (.object [(switchField c,.string text)]) =
      if channel = c then [.stateReported device (.switch (Text.eqIgnoreAsciiCase text "ON"))]
      else [] := by
  have reads_none : rootStates (.object [(switchField c,.string text)]) = [] := by
    rw [rootStates_single fun k hk => switchField_ne (sensorFields_apart k hk) c,
      if_neg (switchField_ne (by decide) c),if_neg (switchField_ne (by decide) c),
      if_neg (switchField_ne (by decide) c)]
    rfl
  rw [jsonToDeviceEvents,reads_none,get_single,get_single,
    if_neg (@switchField_ne "action" (by decide) c),
    if_congr switchField_injective.eq_iff rfl rfl]
  split_ifs <;> rfl

/-- A reading is of the root load alone. -/
theorem slice_reading {s : CapabilityState} (field : ¬"state".toList <+: key.toList)
    (no_action : "action" ≠ key) (reads : rootStates (.object [(key,value)]) = [s]) :
    jsonToDeviceEvents device channel actions (.object [(key,value)]) =
      if channel = none then [.stateReported device s] else [] := by
  rw [jsonToDeviceEvents,reads,get_single,get_single,if_neg (switchField_ne field channel).symm,
    if_neg no_action]
  cases channel <;> rfl

end Slices

theorem asU64_natCast {n : ℕ} (h : n < 2^64) : (Json.int n).asU64 = some n := by
  rw [Json.asU64,if_pos (by omega),Int.toNat_natCast]

theorem rootStates_brightness {pct : UInt8} (h : pct ≤ 100) :
    rootStates (.object [("brightness",.int (pctToLevel pct))]) = [.brightness pct] := by
  have hlevel : pctToLevel pct < 2^64 := by
    rw [pctToLevel]
    omega
  rw [rootStates_single (by decide),if_pos rfl,if_neg (by decide),if_neg (by decide),
    Option.bind_some,asU64_natCast hlevel,Option.map_some,levelToPct_pctToLevel h]
  rfl

theorem rootStates_colorTemperature (mireds : UInt16) :
    rootStates (.object [("color_temp",.int mireds.toNat)]) = [.colorTemperature mireds] := by
  have hm := mireds.toNat_lt
  rw [rootStates_single (by decide),if_neg (by decide),if_neg (by decide),if_pos rfl,
    Option.bind_some,asU64_natCast (by omega),Option.map_some,min_eq_left (by omega),
    UInt16.ofNat_toNat]
  rfl

theorem parseZ2mColor_channels (r g b : UInt8) :
    parseZ2mColor (.ofFields [("r",.int r.toNat),("g",.int g.toNat),("b",.int b.toNat)]) =
      some (r,g,b) := by
  have hr := r.toNat_lt
  have hg := g.toNat_lt
  have hb := b.toNat_lt
  have bytes : r.toNat ≤ 255 ∧ g.toNat ≤ 255 ∧ b.toNat ≤ 255 := by omega
  have red := Json.get_rgb (.int r.toNat) (.int g.toNat) (.int b.toNat) "r"
  have green := Json.get_rgb (.int r.toNat) (.int g.toNat) (.int b.toNat) "g"
  have blue := Json.get_rgb (.int r.toNat) (.int g.toNat) (.int b.toNat) "b"
  rw [if_neg (by decide),if_neg (by decide),if_pos rfl] at red
  rw [if_neg (by decide),if_pos rfl] at green
  rw [if_pos rfl] at blue
  rw [parseZ2mColor,red,green,blue,Option.bind_some,Option.bind_some,Option.bind_some,
    asU64_natCast (by omega),asU64_natCast (by omega),asU64_natCast (by omega)]
  dsimp only
  rw [if_pos bytes,UInt8.ofNat_toNat,UInt8.ofNat_toNat,UInt8.ofNat_toNat]

theorem rootStates_color (r g b : UInt8) :
    rootStates (.object [("color",.ofFields [("r",.int r.toNat),("g",.int g.toNat),
      ("b",.int b.toNat)])]) = [.color r g b] := by
  rw [rootStates_single (by decide),if_neg (by decide),if_pos rfl,if_neg (by decide),
    Option.bind_some,parseZ2mColor_channels]
  rfl

/-- What a command with a state publishes is read back as the state, by the devices on the same load
alone. -/
theorem slice_of_publish {base friendly topic : String} {c channel : LoadChannel} {cmd : Command}
    {payload : Json} {s : CapabilityState} {device : DeviceId}
    {actions : HashMap DeviceId (HashMap String ActionId)}
    (h : commandToPublish base friendly c cmd = some (topic,payload)) (sets : cmd.echo = some s)
    (percent : ∀ value, s = .brightness value → value ≤ 100) :
    jsonToDeviceEvents device channel actions payload =
      if channel = c then [.stateReported device s] else [] := by
  cases cmd with
  | setSwitch _ on =>
    cases sets
    obtain ⟨-,rfl⟩ := Prod.mk.inj (Option.some.inj h)
    rw [(sole_ofFields _ _).slice,slice_load]
    cases on <;> rfl
  | setBrightness _ value transition =>
    cases sets
    obtain _ | n := c
    · obtain ⟨-,rfl⟩ := Prod.mk.inj (Option.some.inj h)
      rw [(sole_setTransition (sole_ofFields _ _) transition).slice]
      exact slice_reading (by decide) (by decide) (rootStates_brightness (percent value rfl))
    · cases h
  | setColor _ r g b transition =>
    cases sets
    obtain _ | n := c
    · obtain ⟨-,rfl⟩ := Prod.mk.inj (Option.some.inj h)
      rw [(sole_setTransition (sole_ofFields _ _) transition).slice]
      exact slice_reading (by decide) (by decide) (rootStates_color r g b)
    · cases h
  | setColorTemperature _ mireds transition =>
    cases sets
    obtain _ | n := c
    · obtain ⟨-,rfl⟩ := Prod.mk.inj (Option.some.inj h)
      rw [(sole_setTransition (sole_ofFields _ _) transition).slice]
      exact slice_reading (by decide) (by decide) (rootStates_colorTemperature mireds)
    · cases h
  | _ => cases sets

/-! ### Round trips -/

/-- What an adapter is built over: distinct devices, of friendly names without a slash. -/
structure Registry where
  devices : List (DeviceId × String × Option UInt16)
  distinct : (devices.map Prod.fst).Nodup
  plain : ∀ x ∈ devices, '/' ∉ x.2.1.toList

/-- Every element passes both tests and yields one event, or yields none. -/
theorem filter_flatMap_single {α β : Type} {p q : α → Prop} [DecidablePred p] [DecidablePred q]
    {f : α → List β} {g : α → β} {l : List α}
    (single : ∀ y ∈ l, f y = if q y then [g y] else []) :
    (l.filter fun y => p y).flatMap f = (l.filter fun y => p y ∧ q y).map g := by
  induction l with
  | nil => rfl
  | cons y l ih =>
    have rest := ih fun z hz => single z (List.mem_cons_of_mem _ hz)
    have own := single y List.mem_cons_self
    by_cases hp : p y
    · by_cases hq : q y
      · rw [List.filter_cons_of_pos (by simpa using hp),List.filter_cons_of_pos (by simp [hp,hq]),
          List.flatMap_cons,List.map_cons,own,if_pos hq,rest]
        rfl
      · rw [List.filter_cons_of_pos (by simpa using hp),List.filter_cons_of_neg (by simp [hq]),
          List.flatMap_cons,own,if_neg hq,rest]
        rfl
    · rw [List.filter_cons_of_neg (by simpa using hp),List.filter_cons_of_neg (by simp [hp]),rest]

variable {T : Type}

theorem channelOf_new {devices : List (DeviceId × String × Option UInt16)}
    (distinct : (devices.map Prod.fst).Nodup) {x : DeviceId × String × Option UInt16}
    (hx : x ∈ devices) (π : HashOrder) (base : String)
    (events : List (DeviceId × String × ActionId))
    (capabilities : List (DeviceId × List CapabilityKind)) (transport : T) :
    (Zigbee2MqttAdapter.new π base devices events capabilities transport).channelOf x.1 =
      normalizeChannel x.2.2 := by
  let targets := devices.map fun x => (x.1,(⟨x.2.1,normalizeChannel x.2.2⟩ : DeviceTarget))
  have nodup : (targets.map Prod.fst).Nodup := by
    rw [List.map_map]
    exact distinct
  have hl := (HashMap.lookup_foldl_insert nodup ∅ x.1 ⟨x.2.1,normalizeChannel x.2.2⟩).mpr
    (.inl (List.mem_map_of_mem hx))
  rw [List.foldl_map] at hl
  rw [Zigbee2MqttAdapter.channelOf,Zigbee2MqttAdapter.new,hl,Option.bind_some]

/-- A published state that comes back on the topic of the device is reported once for every device
on the same load, and nothing else is. -/
theorem publish_reads_back (base : String) (reg : Registry) {x : DeviceId × String × Option UInt16}
    (hx : x ∈ reg.devices) {cmd : Command} {topic : String} {payload : Json} {s : CapabilityState}
    (published : commandToPublish base x.2.1 (normalizeChannel x.2.2) cmd = some (topic,payload))
    (sets : cmd.echo = some s) (percent : ∀ value, s = .brightness value → value ≤ 100)
    (π : HashOrder) (events : List (DeviceId × String × ActionId))
    (capabilities : List (DeviceId × List CapabilityKind)) (transport : T) :
    let a := Zigbee2MqttAdapter.new π base reg.devices events capabilities transport
    messageToEvents base a.byName a.channelOf a.actions ⟨base ++ "/" ++ x.2.1,some payload⟩ =
      (reg.devices.filter fun y => y.2.1 = x.2.1 ∧
        normalizeChannel y.2.2 = normalizeChannel x.2.2).map fun y => .stateReported y.1 s := by
  intro a
  apply (messageToEvents_on_topic reg.devices base x.2.1 a.channelOf a.actions payload).trans
  rw [if_neg (reg.plain x hx)]
  simp only [Bool.beq_eq_decide_eq]
  apply filter_flatMap_single
  intro y hy
  rw [slice_of_publish published sets percent,channelOf_new reg.distinct hy]

/-- Two gangs of a relay and a lamp: the second gang hears nothing of the first. -/
def gangs : Registry where
  devices := [(⟨0⟩,"relay",some 1),(⟨1⟩,"relay",some 2),(⟨2⟩,"lamp",none)]
  distinct := by decide
  plain := by decide

theorem gang_reads_back :
    let a := Zigbee2MqttAdapter.new .identity "home" gangs.devices [] [] ()
    messageToEvents "home" a.byName a.channelOf a.actions
        ⟨"home" ++ "/" ++ "relay",some (.ofFields [(switchField (some 1),.string "ON")])⟩ =
      [.stateReported ⟨0⟩ (.switch true)] :=
  @publish_reads_back Unit "home" gangs (⟨0⟩,"relay",some 1) List.mem_cons_self
    (.setSwitch ⟨0⟩ true) _ _ _ rfl rfl (by rintro _ ⟨⟩) .identity [] [] ()

end Zigbee2Mqtt

/-! ### Accepted devices -/

section Accepted
open Zigbee2Mqtt
variable {lib : Libraries} {π : HashOrder} {raw : RawConfig} {cfg : CompiledConfig} {d : DeviceDef}

namespace Zigbee2MqttAdapter

/-- The topic of a device. -/
def topicOf {T : Type} (a : Zigbee2MqttAdapter T) (d : DeviceDef) : String :=
  a.baseTopic ++ "/" ++ d.friendly

/-- The events of a message on a topic. -/
def hear {T : Type} (a : Zigbee2MqttAdapter T) (topic : String) (json : Json) : List Event :=
  messageToEvents a.baseTopic a.byName a.channelOf a.actions ⟨topic,some json⟩

/-- The topic is among those that the transport is opened for. -/
theorem topicOf_subscribed (hd : d ∈ cfg.devices) (order : HashOrder) {T : Type}
    (connect : List Char → ℕ → List String → T) (config : Value) :
    let a := build order connect config (devicesOf cfg d.adapter)
    ∃ host port topics, a.transport = connect host port topics ∧ a.topicOf d ∈ topics :=
  ⟨_,_,_,rfl,(order.mem_shuffle 1).mpr (List.mem_dedup.mpr (List.mem_map_of_mem
    (mem_devicesOf.mpr ⟨hd,rfl⟩)))⟩

theorem channelOf_build (accepted : resolve lib π raw = .ok cfg) (hd : d ∈ cfg.devices)
    (order : HashOrder) {T : Type} (connect : List Char → ℕ → List String → T) (config : Value) :
    (build order connect config (devicesOf cfg d.adapter)).channelOf d.id =
      normalizeChannel d.endpoint := by
  have distinct : (((devicesOf cfg d.adapter).map fun d =>
      (d.id,d.friendly,d.endpoint)).map Prod.fst).Nodup := by
    rw [List.map_map]
    exact (device_ids_nodup accepted).sublist (List.filter_sublist.map _)
  exact channelOf_new distinct (List.mem_map_of_mem (mem_devicesOf.mpr ⟨hd,rfl⟩)) _ _ _ _ _

end Zigbee2MqttAdapter

/-- The state of the device's load is a slice that is not empty. -/
theorem slice_ne_nil (device : DeviceId) (channel : LoadChannel)
    (actions : HashMap DeviceId (HashMap String ActionId)) :
    jsonToDeviceEvents device channel actions (.object [(switchField channel,.string "ON")]) ≠ [] := by
  rw [slice_load,if_pos rfl]
  exact List.cons_ne_nil _ _

/-- Every payload on the topic that is subscribed to for a device is read for the device exactly as
long as its friendly name holds no slash; a slash hides every payload that would be an event. -/
theorem device_is_heard_iff (accepted : resolve lib π raw = .ok cfg) (hd : d ∈ cfg.devices)
    (order : HashOrder) {T : Type} (connect : List Char → ℕ → List String → T) (config : Value) :
    let a := Zigbee2MqttAdapter.build order connect config (devicesOf cfg d.adapter)
    let slice := fun fields =>
      jsonToDeviceEvents d.id (normalizeChannel d.endpoint) a.actions (.object fields)
    (∃ host port topics, a.transport = connect host port topics ∧ a.topicOf d ∈ topics) ∧
    ((∀ fields, slice fields <:+: a.hear (a.topicOf d) (.object fields)) ↔
      '/' ∉ d.friendly.toList) ∧
    ∀ fields, slice fields <:+: a.hear (a.topicOf d) (.object fields) ↔
      '/' ∉ d.friendly.toList ∨ slice fields = [] := by
  intro a slice
  have exact_iff (fields : List (String × Json)) :
      slice fields <:+: a.hear (a.topicOf d) (.object fields) ↔
        '/' ∉ d.friendly.toList ∨ slice fields = [] := by
    have hh : a.hear (a.topicOf d) (.object fields) = if '/' ∈ d.friendly.toList then []
        else (((devicesOf cfg d.adapter).map fun d => (d.id,d.friendly,d.endpoint)).filter
          fun y => y.2.1 == d.friendly).flatMap fun y =>
            jsonToDeviceEvents y.1 (a.channelOf y.1) a.actions (.object fields) :=
      messageToEvents_on_topic _ _ _ _ _ _
    rw [hh]
    split_ifs with hslash
    · simp [hslash]
    · simp only [hslash,not_false_eq_true,true_or,iff_true]
      have hm : (d.id,d.friendly,d.endpoint) ∈ ((devicesOf cfg d.adapter).map fun d =>
          (d.id,d.friendly,d.endpoint)).filter fun y => y.2.1 == d.friendly :=
        List.mem_filter.mpr ⟨List.mem_map_of_mem (mem_devicesOf.mpr ⟨hd,rfl⟩),by simp⟩
      have own : slice fields =
          jsonToDeviceEvents d.id (a.channelOf d.id) a.actions (.object fields) := by
        rw [Zigbee2MqttAdapter.channelOf_build accepted hd order connect config]
      let read (y : DeviceId × String × Option UInt16) :=
        jsonToDeviceEvents y.1 (a.channelOf y.1) a.actions (.object fields)
      have listed : read (d.id,d.friendly,d.endpoint) ∈ List.map read _ := List.mem_map_of_mem hm
      rw [own]
      exact List.infix_of_mem_flatten listed
  refine ⟨Zigbee2MqttAdapter.topicOf_subscribed hd order connect config,⟨?_,?_⟩,exact_iff⟩
  · intro h
    let switched := [(switchField (normalizeChannel d.endpoint),Json.string "ON")]
    have heard : slice switched ≠ [] := slice_ne_nil d.id (normalizeChannel d.endpoint) a.actions
    exact ((exact_iff switched).mp (h switched)).resolve_right heard
  · intro h fields
    exact (exact_iff fields).mpr (.inl h)

/-- One bulb, under a friendly name. -/
def bulbConfig (address : String) : RawConfig where
  system := .default
  adapters := .single "bus" ⟨"zigbee2mqtt",.mapping [(.string "url",.string "mqtt://broker")]⟩
  devices := .single "bulb" ⟨"bus",some address,none,["switch"],.empty,none,none,none⟩
  scenes := .empty
  schedules := .empty
  rules := .empty

theorem bulb_is_heard : ∃ cfg, ∃ d ∈ cfg.devices, ∃ x,
    resolve plainLibraries .identity (bulbConfig "bulb") = .ok cfg ∧
      cfg.adapters[d.adapter]? = some x ∧
      let a := Zigbee2MqttAdapter.build .identity (fun _ _ _ => ()) x.config
        (devicesOf cfg d.adapter)
      ∀ fields, jsonToDeviceEvents d.id (normalizeChannel d.endpoint) a.actions (.object fields) <:+:
        a.hear (a.topicOf d) (.object fields) := by
  obtain ⟨cfg,h,d,hd,x,hx,hs⟩ : ∃ cfg,
      resolve plainLibraries .identity (bulbConfig "bulb") = .ok cfg ∧
      ∃ d ∈ cfg.devices, ∃ x, cfg.adapters[d.adapter]? = some x ∧ '/' ∉ d.friendly.toList :=
    ⟨_,rfl,_,List.mem_singleton_self _,_,rfl,by decide⟩
  exact ⟨cfg,d,hd,x,h,hx,(device_is_heard_iff h hd .identity (fun _ _ _ => ()) x.config).2.1.mpr hs⟩

/-- Under a name with a slash the bulb is subscribed to and never heard. -/
theorem bulb_in_a_group_is_deaf : ∃ cfg, ∃ d ∈ cfg.devices, ∃ x,
    resolve plainLibraries .identity (bulbConfig "kitchen/bulb") = .ok cfg ∧
      cfg.adapters[d.adapter]? = some x ∧ x.plugin = some .zigbee2mqtt ∧
      let a := Zigbee2MqttAdapter.build .identity (fun _ _ topics => topics) x.config
        (devicesOf cfg d.adapter)
      a.transport = ["zigbee2mqtt/kitchen/bulb"] ∧ a.topicOf d = "zigbee2mqtt/kitchen/bulb" ∧
        jsonToDeviceEvents d.id (normalizeChannel d.endpoint) a.actions
          (.object [("state",.string "ON")]) = [.stateReported d.id (.switch true)] ∧
        a.hear (a.topicOf d) (.object [("state",.string "ON")]) = [] := by
  obtain ⟨cfg,h,d,hd,x,hx,hp,ht,hn,hs,he⟩ : ∃ cfg,
      resolve plainLibraries .identity (bulbConfig "kitchen/bulb") = .ok cfg ∧
      ∃ d ∈ cfg.devices, ∃ x, cfg.adapters[d.adapter]? = some x ∧
        x.plugin = some .zigbee2mqtt ∧
        let a := Zigbee2MqttAdapter.build .identity (fun _ _ topics => topics) x.config
          (devicesOf cfg d.adapter)
        a.transport = ["zigbee2mqtt/kitchen/bulb"] ∧ a.topicOf d = "zigbee2mqtt/kitchen/bulb" ∧
          jsonToDeviceEvents d.id (normalizeChannel d.endpoint) a.actions
            (.object [("state",.string "ON")]) = [.stateReported d.id (.switch true)] ∧
          a.hear (a.topicOf d) (.object [("state",.string "ON")]) = [] :=
    ⟨_,rfl,_,List.mem_singleton_self _,_,rfl,rfl,by decide,by decide,by decide,by decide⟩
  exact ⟨cfg,d,hd,x,h,hx,hp,ht,hn,hs,he⟩

end Accepted
end Domiform
