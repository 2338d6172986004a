import Domiform.Compile.Ast
import Domiform.Compile.Diagnostic
import Domiform.Compile.Text
import Domiform.Model

/-! The adapter registry, as the compiler sees it: each plugin's type tag, its polarity, and what
it demands of its own config block and of the devices bound to it. -/
namespace Domiform

structure DeviceMetadata where
  manufacturer : Option String
  model : Option String
  room : Option String

structure DeviceEvent where
  id : ActionId
  name : String
  raw : String

/-- A resolved device. `adapter` indexes the adapters of the config. -/
structure DeviceDef where
  id : DeviceId
  name : String
  adapter : ℕ
  address : Option String
  endpoint : Option UInt16
  capabilities : List CapabilityKind
  events : List DeviceEvent
  metadata : DeviceMetadata

/-- What the compiler asks of libraries outside the repository: whether a timezone is known, why
a cron expression is not one, and how decoding errors read. -/
structure Libraries where
  knownTimezone : String → Bool
  cronError : String → Option String
  mergeError : Value.MergeError → String
  /-- The error text for a value that does not decode as the named payload or config. -/
  decodeError : String → Value → String

inductive Polarity
  | southbound
  | northbound
  deriving DecidableEq, Repr

/-- Which devices a northbound adapter exposes. -/
inductive ExposeSpec
  | all
  | named (names : List String)
  deriving DecidableEq

inductive Plugin
  | zigbee2mqtt
  | matter
  | zwavejs
  | mock
  | mockNorthbound
  | virtualDevice
  deriving DecidableEq, Repr

/-- `expose: all` or `expose: [a, b]`. -/
inductive ExposeConfig
  | unset
  | keyword (k : String)
  | names (names : List String)
  deriving DecidableEq

def ExposeConfig.decode : Value → Option ExposeConfig
  | .null => some .unset
  | .string s => some (.keyword s)
  | .sequence items =>
    (items.mapM fun
      | Value.string s => some s
      | _ => none).map .names
  | _ => none

/-- `MockNorthboundConfig`. -/
def decodeExpose (config : Value) : Option ExposeConfig := do
  let f ← config.fields ["expose"]
  match f "expose" with
  | none => some .unset
  | some v => ExposeConfig.decode v

/-- The `url` of a Matter or Z-Wave JS config block. -/
def decodeUrl (config : Value) : Option String := do
  let f ← config.fields ["url"]
  (f "url").bind Value.asStr

structure Zigbee2MqttConfig where
  url : String
  baseTopic : String

def Zigbee2MqttConfig.decode (config : Value) : Option Zigbee2MqttConfig := do
  let f ← config.fields ["url","base_topic"]
  let url ← (f "url").bind Value.asStr
  let baseTopic ←
    match f "base_topic" with
    | none => some "zigbee2mqtt"
    | some v => v.asStr
  some ⟨url,baseTopic⟩

/-- `parse_mqtt_url`: `mqtt://host:port`, the scheme optional and the port 1883 by default. -/
def parseMqttUrl (url : String) : Option (List Char × ℕ) :=
  let stripped := (Text.stripPrefix url.toList "mqtt://").orElse fun _ =>
    Text.stripPrefix url.toList "tcp://"
  let rest := ((stripped.getD url.toList).reverse.dropWhile (· == '/')).reverse
  match Text.rsplitOnce ':' rest with
  | some (host,port) =>
    match Text.parseUnsigned 65535 port with
    | some port => if host = [] then none else some (host,port)
    | none => none
  | none => if rest = [] then none else some (rest,1883)

namespace Plugin

/-- The registered plugins, in registry order. -/
def plugins : List Plugin := [zigbee2mqtt,matter,zwavejs,mock,mockNorthbound,virtualDevice]

def typeTag : Plugin → String
  | zigbee2mqtt => "zigbee2mqtt"
  | matter => "matter"
  | zwavejs => "zwavejs"
  | mock => "mock"
  | mockNorthbound => "mock_northbound"
  | virtualDevice => "virtual"

/-- `plugin_for`. -/
def pluginFor (tag : String) : Option Plugin := plugins.find? fun p => p.typeTag == tag

def polarity : Plugin → Polarity
  | mockNorthbound => .northbound
  | _ => .southbound

def exposeSpec (p : Plugin) (config : Value) : Option ExposeSpec :=
  match p with
  | mockNorthbound =>
    (decodeExpose config).map fun expose =>
      match expose with
      | .unset | .keyword _ => .all
      | .names names => .named names
  | _ => none

/-- `config_of` failed. -/
def badConfig (lib : Libraries) (p : Plugin) (config : Value) (context : String) : Diagnostic :=
  (Diagnostic.error "E_ADAPTER_CONFIG" (lib.decodeError p.typeTag config)).place context

/-- The check Matter and Z-Wave JS make of their url; `what` names the peer. -/
def validateWebSocket (lib : Libraries) (p : Plugin) (what : String) (config : Value)
    (context : String) : List Diagnostic :=
  match decodeUrl config with
  | none => [p.badConfig lib config context]
  | some url =>
    if Text.startsWith url.toList "ws://" || Text.startsWith url.toList "wss://" then []
    else [(Diagnostic.error "E_BAD_URL"
      (what ++ " url must be ws:// or wss:// — got '" ++ url ++ "'")).place context]

def validateConfig (lib : Libraries) (p : Plugin) (config : Value) (context : String) :
    List Diagnostic :=
  match p with
  | zigbee2mqtt =>
    match Zigbee2MqttConfig.decode config with
    | none => [p.badConfig lib config context]
    | some cfg =>
      if (parseMqttUrl cfg.url).isNone then
        [(Diagnostic.error "E_BAD_URL" ("invalid broker url '" ++ cfg.url ++ "'")).place context]
      else []
  | matter => p.validateWebSocket lib "matter controller" config context
  | zwavejs => p.validateWebSocket lib "zwavejs server" config context
  | mockNorthbound =>
    match decodeExpose config with
    | none => [p.badConfig lib config context]
    | some (.keyword k) =>
      if k = "all" then []
      else [(Diagnostic.error "E_ADAPTER_CONFIG"
        ("`expose` keyword must be 'all', got '" ++ k ++ "'")).place context]
    | some _ => []
  | mock | virtualDevice => []

/-- The check Matter and Z-Wave JS make of a device's address. -/
def validateNodeId (p : Plugin) (origin : String) (bound : ℕ) (device : DeviceDef)
    (context : String) : List Diagnostic :=
  match device.address with
  | none => [(Diagnostic.error "E_MISSING_ADDRESS" (p.typeTag ++
      " devices need an `address` (the decimal node_id from " ++ origin ++ ")")).place context]
  | some addr =>
    if (Text.parseUnsigned bound addr.toList).isNone then
      [(Diagnostic.error "E_BAD_ADDRESS" (p.typeTag ++
        " `address` must be a decimal node_id — got '" ++ addr ++ "'")).place context]
    else []

def validateDevice (p : Plugin) (device : DeviceDef) (context : String) : List Diagnostic :=
  match p with
  | zigbee2mqtt =>
    if device.address.isNone then
      [(Diagnostic.error "E_MISSING_ADDRESS"
        "zigbee2mqtt devices need an `address` (the z2m friendly_name)").place context]
    else []
  | matter => p.validateNodeId "commissioning" (2^64-1) device context
  | zwavejs => p.validateNodeId "inclusion" (2^32-1) device context
  | mock | mockNorthbound | virtualDevice => []

theorem pluginFor_eq_some {tag : String} {p : Plugin} (h : pluginFor tag = some p) :
    p.typeTag = tag := by
  simpa using List.find?_some h

/-- The one plugin that is never a dispatch target. -/
theorem polarity_eq_northbound {p : Plugin} : p.polarity = .northbound ↔ p = .mockNorthbound := by
  cases p <;> decide

end Plugin
end Domiform
