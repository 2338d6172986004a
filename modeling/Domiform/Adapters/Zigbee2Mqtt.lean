import Domiform.Adapters.Units
import Domiform.Adapter
import Domiform.Compile.Plugin

/-! zigbee2mqtt: commands to `/set` publishes, and state publishes to events. The broker is behind a
transport that publishes and polls. -/
namespace Domiform
open Library

/-- A message; `payload` is what its bytes parse to, if they are JSON at all. -/
structure MqttMessage where
  topic : String
  payload : Option Json

class MqttTransport (T : Type) where
  publish : T → String → Json → Except String Unit × T
  poll : T → List MqttMessage × T

/-- The load of a multi-gang switch; `none` is the single load `state`. -/
abbrev LoadChannel := Option UInt16

/-- One device behind a friendly name, perhaps one load of it. -/
structure DeviceTarget where
  friendly : String
  channel : LoadChannel

structure Zigbee2MqttAdapter (T : Type) where
  baseTopic : String
  byId : HashMap DeviceId DeviceTarget
  byName : HashMap String (List DeviceId)
  actions : HashMap DeviceId (HashMap String ActionId)
  transport : T
  primeRequests : List (String × Json)
  primed : Bool

namespace Zigbee2Mqtt

def normalizeChannel (endpoint : Option UInt16) : LoadChannel :=
  match endpoint with
  | none => none
  | some n => if n = 0 then none else some n

def switchField : LoadChannel → String
  | none => "state"
  | some n => "state_l" ++ toString n.toNat

/-- The attribute a `/get` asks for. Sensors that report on their own schedule are not asked. -/
def readAttr (cap : CapabilityKind) (channel : LoadChannel) : Option String :=
  match cap with
  | .switch => some (switchField channel)
  | .brightness => if channel.isNone then some "brightness" else none
  | .color => if channel.isNone then some "color" else none
  | .colorTemperature => if channel.isNone then some "color_temp" else none
  | .power => if channel.isNone then some "power" else none
  | _ => none

/-- `set_transition`: a fade in seconds. -/
def setTransition (body : Json) (transition : Option Millis) : Json :=
  match body,transition with
  | .object fields,some ms =>
    .object (Json.insertField fields "transition" (.fraction (Float.ofNat ms/1000)))
  | body,_ => body

/-- A command as a publish to `<base>/<friendly>/set`; `none` when it is for no device, or when
the load channel cannot express it. -/
def commandToPublish (base friendly : String) (channel : LoadChannel) (cmd : Command) :
    Option (String × Json) :=
  let topic := base ++ "/" ++ friendly ++ "/set"
  match cmd with
  | .setSwitch _ on =>
    some (topic,.ofFields [(switchField channel,.string (if on then "ON" else "OFF"))])
  | .setBrightness _ value transition =>
    if channel.isSome then none
    else some (topic,setTransition (.ofFields [("brightness",.int (pctToLevel value))]) transition)
  | .toggleSwitch _ => some (topic,.ofFields [(switchField channel,.string "TOGGLE")])
  | .setColor _ r g b transition =>
    if channel.isSome then none
    else
      let color := Json.ofFields [("r",.int r.toNat),("g",.int g.toNat),("b",.int b.toNat)]
      some (topic,setTransition (.ofFields [("color",color)]) transition)
  | .setColorTemperature _ mireds transition =>
    if channel.isSome then none
    else some (topic,setTransition (.ofFields [("color_temp",.int mireds.toNat)]) transition)
  | .sendIrCode _ code => some (topic,.ofFields [("ir_code_to_send",.string code)])
  | _ => none

/-- sRGB from `r`/`g`/`b`, or from a hex text, nested or plain. -/
def parseZ2mColor (color : Json) : Option (UInt8 × UInt8 × UInt8) :=
  let hex : Option (UInt8 × UInt8 × UInt8) := do
    let text ← (((color.get "hex").bind Json.asStr).orElse fun _ => color.asStr)
    Text.hexToRgb text.toList
  match (color.get "r").bind Json.asU64,(color.get "g").bind Json.asU64,
    (color.get "b").bind Json.asU64 with
  | some r,some g,some b =>
    if r ≤ 255 ∧ g ≤ 255 ∧ b ≤ 255 then some (UInt8.ofNat r,UInt8.ofNat g,UInt8.ofNat b) else hex
  | _,_,_ => hex

/-- `x.clamp(low, high)`. -/
def clamp (x low high : Float) : Float := if x < low then low else if high < x then high else x

/-- The readings a payload holds for the root load, in the order they are reported. -/
def rootStates (json : Json) : List CapabilityState :=
  (((json.get "brightness").bind Json.asU64).map fun b =>
    CapabilityState.brightness (levelToPct b)).toList ++
  (((json.get "color").bind parseZ2mColor).map fun c =>
    CapabilityState.color c.1 c.2.1 c.2.2).toList ++
  (((json.get "color_temp").bind Json.asU64).map fun ct =>
    CapabilityState.colorTemperature (UInt16.ofNat (min ct 65535))).toList ++
  (((json.get "occupancy").bind Json.asBool).map CapabilityState.occupancy).toList ++
  (((json.get "battery").bind Json.asU64).map fun bat =>
    CapabilityState.battery (UInt8.ofNat (min bat 100))).toList ++
  (((json.get "temperature").bind Json.asF64).map fun c =>
    CapabilityState.temperature (clamp (c*100).round (-32768) 32767).toInt16).toList ++
  (((json.get "humidity").bind Json.asF64).map fun h =>
    CapabilityState.humidity (clamp h.round 0 100).toUInt8).toList ++
  ((((json.get "illuminance_lux").orElse fun _ => json.get "illuminance").bind Json.asU64).map
    fun lux => CapabilityState.illuminance (UInt32.ofNat (min lux (2^32-1)))).toList ++
  (((json.get "power").bind Json.asF64).map fun p =>
    CapabilityState.power (min (max p.round 0) 4294967295).toUInt32).toList ++
  (((json.get "contact").bind Json.asBool).map fun closed =>
    CapabilityState.contact (!closed)).toList ++
  (((json.get "water_leak").bind Json.asBool).map CapabilityState.waterLeak).toList ++
  (((json.get "smoke").bind Json.asBool).map CapabilityState.smoke).toList

/-- One device's slice of a payload. -/
def jsonToDeviceEvents (device : DeviceId) (channel : LoadChannel)
    (actions : HashMap DeviceId (HashMap String ActionId)) (json : Json) : List Event :=
  (((json.get (switchField channel)).bind Json.asStr).map fun state =>
    Event.stateReported device (.switch (Text.eqIgnoreAsciiCase state "ON"))).toList ++
  (if channel.isNone then (rootStates json).map (Event.stateReported device) else []) ++
  (((json.get "action").bind Json.asStr).bind fun action =>
    ((actions.lookup device).bind fun m => m.lookup action).map (Event.action device)).toList

/-- Messages for other devices, for sub-topics and for the bridge are ignored. -/
def messageToEvents (base : String) (byName : HashMap String (List DeviceId))
    (channels : DeviceId → LoadChannel) (actions : HashMap DeviceId (HashMap String ActionId))
    (msg : MqttMessage) : List Event :=
  match Text.stripPrefix msg.topic.toList (base ++ "/") with
  | none => []
  | some friendly =>
    if friendly.contains '/' then []
    else
      match byName.lookup (.ofList friendly),msg.payload with
      | some devices,some json =>
        devices.flatMap fun device => jsonToDeviceEvents device (channels device) actions json
      | _,_ => []

end Zigbee2Mqtt

namespace Zigbee2MqttAdapter
open Zigbee2Mqtt
variable {T : Type}

/-- `by_name.entry(name).or_default().push(id)`. -/
def pushName (m : HashMap String (List DeviceId)) (name : String) (id : DeviceId) :
    HashMap String (List DeviceId) :=
  m.insert name ((m.lookup name).getD [] ++ [id])

/-- The attributes of every `/get` topic, merged. -/
def primeByTopic (base : String) (byId : HashMap DeviceId DeviceTarget)
    (capabilities : List (DeviceId × List CapabilityKind)) :
    HashMap String (List (String × Json)) :=
  capabilities.foldl (fun m x =>
    match byId.lookup x.1 with
    | none => m
    | some target =>
      match x.2.filterMap fun c => readAttr c target.channel with
      | [] => m
      | attrs =>
        let topic := base ++ "/" ++ target.friendly ++ "/get"
        m.insert topic (attrs.foldl (fun body attr => Json.insertField body attr (.string ""))
          ((m.lookup topic).getD []))) ∅

/-- The tables of an adapter. `actions` maps each raw string of a device to one event. -/
def new (π : HashOrder) (baseTopic : String) (devices : List (DeviceId × String × Option UInt16))
    (events : List (DeviceId × String × ActionId))
    (capabilities : List (DeviceId × List CapabilityKind)) (transport : T) :
    Zigbee2MqttAdapter T :=
  let byId := devices.foldl (fun m x => m.insert x.1 ⟨x.2.1,normalizeChannel x.2.2⟩) ∅
  { baseTopic
    byId
    byName := devices.foldl (fun m x => pushName m x.2.1 x.1) ∅
    actions := events.foldl (fun m x =>
      m.insert x.1 (((m.lookup x.1).getD ∅).insert x.2.1 x.2.2)) ∅
    transport
    primeRequests := (HashMap.iter π 0 (primeByTopic baseTopic byId capabilities)).map fun x =>
      (x.1,.object x.2)
    primed := false }

/-- `device_channels`, read at one device. -/
def channelOf (a : Zigbee2MqttAdapter T) (device : DeviceId) : LoadChannel :=
  (a.byId.lookup device).bind DeviceTarget.channel

variable [MqttTransport T]

def dispatch (a : Zigbee2MqttAdapter T) (cmd : Command) :
    DispatchOutcome × Zigbee2MqttAdapter T :=
  match cmd.targetDevice with
  | none => (.permanent "command has no target device",a)
  | some device =>
    match a.byId.lookup device with
    | none => (.permanent "device is not managed by this adapter",a)
    | some target =>
      match commandToPublish a.baseTopic target.friendly target.channel cmd with
      | none => (.permanent "command unsupported by zigbee2mqtt",a)
      | some (topic,payload) =>
        match MqttTransport.publish a.transport topic payload with
        | (.ok _,t) => (.ok [],{ a with transport := t })
        | (.error e,t) => (.transient e,{ a with transport := t })

/-- The first tick asks every device for its state. -/
def prime (a : Zigbee2MqttAdapter T) : Zigbee2MqttAdapter T :=
  if a.primed then a
  else
    { a with
      primed := true
      transport := a.primeRequests.foldl
        (fun t x => (MqttTransport.publish t x.1 x.2).2) a.transport }

def tick (a : Zigbee2MqttAdapter T) : List Event × Zigbee2MqttAdapter T :=
  let a := a.prime
  let polled := MqttTransport.poll a.transport
  (polled.1.flatMap (messageToEvents a.baseTopic a.byName a.channelOf a.actions),
    { a with transport := polled.2 })

instance : Adapter (Zigbee2MqttAdapter T) where
  dispatch a cmd _ := a.dispatch cmd
  tick a _ := a.tick

end Zigbee2MqttAdapter

/-- `friendly_name`: the address, or the name where there is none. -/
def DeviceDef.friendly (d : DeviceDef) : String := d.address.getD d.name

/-- Every declared event of some devices, with its raw string. -/
def rawEvents (devices : List DeviceDef) : List (DeviceId × String × ActionId) :=
  devices.flatMap fun d => d.events.map fun e => (d.id,e.raw,e.id)

/-- `Plugin::build`; `connect` opens the transport to a broker for a list of topics, which come out
of a hash set. -/
def Zigbee2MqttAdapter.build {T : Type} (π : HashOrder)
    (connect : List Char → ℕ → List String → T) (config : Value) (devices : List DeviceDef) :
    Zigbee2MqttAdapter T :=
  let cfg := (Zigbee2MqttConfig.decode config).getD ⟨"","zigbee2mqtt"⟩
  let broker := (parseMqttUrl cfg.url).getD ([],0)
  let topics := π.shuffle 1 (devices.map fun d => cfg.baseTopic ++ "/" ++ d.friendly).dedup
  .new π cfg.baseTopic (devices.map fun d => (d.id,d.friendly,d.endpoint)) (rawEvents devices)
    (devices.map fun d => (d.id,d.capabilities)) (connect broker.1 broker.2 topics)

end Domiform
