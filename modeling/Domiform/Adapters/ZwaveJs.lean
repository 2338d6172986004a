import Domiform.Adapters.Matter

/-! Z-Wave JS: commands to `node.set_value`, and value updates to events. Everything is a value on a
command class; a button press is a notification of the Central Scene class. -/
namespace Domiform
open Library

/-- Which command class an on/off goes to. -/
inductive DeviceKind
  | switch
  | dimmer
  deriving DecidableEq, Repr

def DeviceKind.fromCapabilities (caps : List CapabilityKind) : DeviceKind :=
  if CapabilityKind.brightness ∈ caps then .dimmer else .switch

structure ValueUpdate where
  node : ℕ
  endpoint : UInt16
  commandClass : ℕ
  property : String
  propertyKey : Option String
  value : Json
  notification : Bool

structure SetValue where
  commandClass : ℕ
  property : String
  value : Json
  transition : Option Millis

class ZwaveClient (C : Type) where
  setValue : C → NodeAddress → SetValue → Except String Unit × C
  poll : C → List ValueUpdate × C

structure ZwaveAdapter (C : Type) where
  byId : HashMap DeviceId (NodeAddress × DeviceKind)
  byNode : HashMap NodeAddress DeviceId
  actions : HashMap DeviceId (HashMap String ActionId)
  client : C

namespace ZwaveJs

/-- A percentage on the 0..=99 scale, rounded to nearest. -/
def pctToZwave (pct : UInt8) : ℕ := (min pct.toNat 100*99+50)/100

/-- Inverse of `pctToZwave`. -/
def zwaveToPct (level : ℕ) : UInt8 := UInt8.ofNat ((min level 99*100+49)/99)

/-- The level that restores the last one. -/
def multilevelOn : ℕ := 255

def ccBinarySwitch : ℕ := 0x25
def ccMultilevelSwitch : ℕ := 0x26
def ccColorSwitch : ℕ := 0x33
def ccCentralScene : ℕ := 0x5B
def ccNotification : ℕ := 0x71
def ccBattery : ℕ := 0x80

/-- What happened to a button. -/
def keyAttributeName : ℕ → Option String
  | 0 => some "KeyPressed"
  | 1 => some "KeyReleased"
  | 2 => some "KeyHeldDown"
  | 3 => some "KeyPressed2x"
  | 4 => some "KeyPressed3x"
  | 5 => some "KeyPressed4x"
  | 6 => some "KeyPressed5x"
  | _ => none

/-- A command as a value to write; there is no toggle, and no infrared. -/
def commandToSetValue (kind : DeviceKind) (cmd : Command) : Option SetValue :=
  match kind,cmd with
  | .dimmer,.setSwitch _ on =>
    some ⟨ccMultilevelSwitch,"targetValue",.int (if on then multilevelOn else 0 : ℕ),none⟩
  | .switch,.setSwitch _ on => some ⟨ccBinarySwitch,"targetValue",.bool on,none⟩
  | _,.setBrightness _ value transition =>
    some ⟨ccMultilevelSwitch,"targetValue",.int (pctToZwave value),transition⟩
  | _,.setColor _ r g b transition =>
    some ⟨ccColorSwitch,"targetColor",
      .ofFields [("red",.int r.toNat),("green",.int g.toNat),("blue",.int b.toNat)],transition⟩
  | _,.setColorTemperature _ mireds transition =>
    let mix := Color.miredsToWarmCold mireds
    some ⟨ccColorSwitch,"targetColor",
      .ofFields [("warmWhite",.int mix.1.toNat),("coldWhite",.int mix.2.toNat)],transition⟩
  | _,_ => none

/-- A zero-padded button number without its padding; any other key as it is. -/
def normalizeButton (key : String) : String :=
  match Text.parseUnsigned (2^32-1) key.toList with
  | some n => toString n
  | none => key

/-- The raw string of a button press. -/
def sceneRaw (u : ValueUpdate) : Option String := do
  let button ← u.propertyKey
  let attr ← u.value.asU64.bind keyAttributeName
  some (normalizeButton button ++ ":" ++ attr)

def parseZwaveColor (value : Json) : Option (UInt8 × UInt8 × UInt8) := do
  let r ← (value.get "red").bind Json.asU64
  let g ← (value.get "green").bind Json.asU64
  let b ← (value.get "blue").bind Json.asU64
  if r ≤ 255 ∧ g ≤ 255 ∧ b ≤ 255 then some (UInt8.ofNat r,UInt8.ofNat g,UInt8.ofNat b) else none

def parseZwaveColorTemp (value : Json) : Option UInt16 := do
  let warm ← (value.get "warmWhite").bind Json.asU64
  let cold ← (value.get "coldWhite").bind Json.asU64
  Color.warmColdToMireds warm cold

/-- The readings of a stateful value; only what the device is, never what it was told. -/
def updateStates (u : ValueUpdate) : List CapabilityState :=
  if u.commandClass = ccBinarySwitch ∧ u.property = "currentValue" then
    (u.value.asBool.map CapabilityState.switch).toList
  else if u.commandClass = ccMultilevelSwitch ∧ u.property = "currentValue" then
    match u.value.asU64 with
    | some level => [.brightness (zwaveToPct level),.switch (decide (0 < level))]
    | none => []
  else if u.commandClass = ccBattery ∧ u.property = "level" then
    (u.value.asU64.map fun pct => CapabilityState.battery (UInt8.ofNat (min pct 100))).toList
  else if u.commandClass = ccColorSwitch ∧ u.property = "currentColor" then
    match parseZwaveColor u.value with
    | some (r,g,b) => [.color r g b]
    | none => ((parseZwaveColorTemp u.value).map CapabilityState.colorTemperature).toList
  else if u.commandClass = ccNotification ∧ u.property = "Home Security" then
    match u.value.asU64 with
    | some 0 => [.occupancy false]
    | some 7 | some 8 => [.occupancy true]
    | _ => []
  else []

/-- Updates from an unknown address are ignored; a press counts only as a notification. -/
def updateToEvents (byNode : HashMap NodeAddress DeviceId)
    (actions : HashMap DeviceId (HashMap String ActionId)) (u : ValueUpdate) : List Event :=
  match byNode.lookup (u.node,u.endpoint) with
  | none => []
  | some device =>
    if u.commandClass = ccCentralScene ∧ u.property = "scene" then
      if u.notification then
        ((sceneRaw u).bind fun raw =>
          ((actions.lookup device).bind fun m => m.lookup raw).map (Event.action device)).toList
      else []
    else (updateStates u).map (Event.stateReported device)

end ZwaveJs

namespace ZwaveAdapter
open ZwaveJs
variable {C : Type}

/-- Both tables, filled in one loop; `actions` maps each raw string of a device to one event. -/
def new (devices : List (DeviceId × NodeAddress × DeviceKind))
    (events : List (DeviceId × String × ActionId)) (client : C) : ZwaveAdapter C where
  byId := devices.foldl (fun m x => m.insert x.1 x.2) ∅
  byNode := devices.foldl (fun m x => m.insert x.2.1 x.1) ∅
  actions := events.foldl (fun m x =>
    m.insert x.1 (((m.lookup x.1).getD ∅).insert x.2.1 x.2.2)) ∅
  client := client

variable [ZwaveClient C]

def dispatch (a : ZwaveAdapter C) (cmd : Command) : DispatchOutcome × ZwaveAdapter C :=
  match cmd.targetDevice with
  | none => (.permanent "command has no target device",a)
  | some device =>
    match a.byId.lookup device with
    | none => (.permanent "device is not managed by this adapter",a)
    | some (address,kind) =>
      match commandToSetValue kind cmd with
      | none => (.permanent "command unsupported by z-wave",a)
      | some set =>
        match ZwaveClient.setValue a.client address set with
        | (.ok _,c) => (.ok [],{ a with client := c })
        | (.error e,c) => (.transient e,{ a with client := c })

def tick (a : ZwaveAdapter C) : List Event × ZwaveAdapter C :=
  let polled := ZwaveClient.poll a.client
  (polled.1.flatMap (updateToEvents a.byNode a.actions),{ a with client := polled.2 })

instance : Adapter (ZwaveAdapter C) where
  dispatch a cmd _ := a.dispatch cmd
  tick a _ := a.tick

end ZwaveAdapter

/-- A Z-Wave device is on the root endpoint unless it says otherwise. -/
def ZwaveJs.target (d : DeviceDef) : Option (DeviceId × NodeAddress × DeviceKind) :=
  (nodeTarget (2^32-1) 0 d).map fun x => (x.1,x.2,DeviceKind.fromCapabilities d.capabilities)

/-- `Plugin::build`; `connect` opens the client at a url. -/
def ZwaveAdapter.build {C : Type} (connect : String → C) (config : Value)
    (devices : List DeviceDef) : ZwaveAdapter C :=
  .new (devices.filterMap ZwaveJs.target) (rawEvents devices)
    (connect ((decodeUrl config).getD ""))

end Domiform
