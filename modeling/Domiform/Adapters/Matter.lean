import Domiform.Adapters.Zigbee2Mqtt

/-! Matter: commands to cluster commands, and attribute reports to events. A device is one endpoint
of a node; the network is behind a controller that invokes and polls. -/
namespace Domiform
open Library

/-- A node id and an endpoint of it. -/
abbrev NodeAddress := ℕ × UInt16

inductive ClusterCommand
  | onOff (on : Bool)
  | toggle
  | moveToLevel (level : UInt8) (transitionDs : UInt16)
  | moveToHueAndSaturation (hue saturation : UInt8) (transitionDs : UInt16)
  | moveToColorTemperature (mireds : UInt16) (transitionDs : UInt16)
  deriving DecidableEq

structure AttrReport where
  node : ℕ
  endpoint : UInt16
  cluster : ℕ
  attr : ℕ
  value : Json

class MatterController (C : Type) where
  invoke : C → NodeAddress → ClusterCommand → Except String Unit × C
  poll : C → List AttrReport × C

/-- What is known of a device's color so far. -/
structure HueSat where
  hue : Option UInt8
  sat : Option UInt8

structure MatterAdapter (C : Type) where
  byId : HashMap DeviceId NodeAddress
  byNode : HashMap NodeAddress DeviceId
  hueSat : HashMap DeviceId HueSat
  controller : C

namespace Matter

/-- Fade times travel in tenths of a second, cut to 16 bits. -/
def transitionDs (transition : Option Millis) : UInt16 :=
  match transition with
  | none => 0
  | some ms => UInt16.ofNat (ms/100)

def commandToCluster : Command → Option ClusterCommand
  | .setSwitch _ on => some (.onOff on)
  | .toggleSwitch _ => some .toggle
  | .setBrightness _ value transition =>
    some (.moveToLevel (UInt8.ofNat (pctToLevel value)) (transitionDs transition))
  | .setColor _ r g b transition =>
    let hs := Color.rgbToHueSat254 r g b
    some (.moveToHueAndSaturation hs.1 hs.2 (transitionDs transition))
  | .setColorTemperature _ mireds transition =>
    some (.moveToColorTemperature mireds (transitionDs transition))
  | _ => none

/-- The reading of a mapped attribute. -/
def reportState (r : AttrReport) : Option CapabilityState :=
  match r.cluster,r.attr with
  | 0x0006,0x0000 => r.value.asBool.map .switch
  | 0x0008,0x0000 => r.value.asU64.map fun level => .brightness (levelToPct level)
  | 0x0300,0x0007 => r.value.asU64.map fun mireds =>
    .colorTemperature (UInt16.ofNat (min mireds 65535))
  | 0x0406,0x0000 => r.value.asU64.map fun bits => .occupancy (bits % 2 == 1)
  | 0x002F,0x000C => r.value.asU64.map fun half => .battery (UInt8.ofNat (min (half/2) 100))
  | _,_ => none

/-- Reports from an unknown address are ignored. -/
def reportToEvents (byNode : HashMap NodeAddress DeviceId) (r : AttrReport) : List Event :=
  match byNode.lookup (r.node,r.endpoint) with
  | none => []
  | some device => ((reportState r).map (Event.stateReported device)).toList

/-- Fold one half of a color; a `Color` comes out once both halves are known. -/
def foldHueSat (acc : HueSat) (device : DeviceId) (r : AttrReport) : HueSat × Option Event :=
  match r.value.asU64 with
  | none => (acc,none)
  | some v =>
    let v := UInt8.ofNat (min v 254)
    let acc? : Option HueSat :=
      match r.attr with
      | 0x0008 => some { acc with hue := some v }
      | 0x0009 => some { acc with sat := some v }
      | _ => none
    match acc? with
    | none => (acc,none)
    | some acc =>
      match acc.hue,acc.sat with
      | some hue,some sat =>
        let rgb := Color.hueSat254ToRgb hue sat
        (acc,some (.stateReported device (.color rgb.1 rgb.2.1 rgb.2.2)))
      | _,_ => (acc,none)

end Matter

namespace MatterAdapter
open Matter
variable {C : Type}

/-- Both tables, filled in one loop. -/
def new (devices : List (DeviceId × NodeAddress)) (controller : C) : MatterAdapter C where
  byId := devices.foldl (fun m x => m.insert x.1 x.2) ∅
  byNode := devices.foldl (fun m x => m.insert x.2 x.1) ∅
  hueSat := ∅
  controller := controller

/-- One report of a tick. -/
def hear (a : MatterAdapter C) (r : AttrReport) : List Event × MatterAdapter C :=
  if r.cluster = 0x0300 ∧ (r.attr = 0x0008 ∨ r.attr = 0x0009) then
    match a.byNode.lookup (r.node,r.endpoint) with
    | none => ([],a)
    | some device =>
      let folded := foldHueSat ((a.hueSat.lookup device).getD ⟨none,none⟩) device r
      (folded.2.toList,{ a with hueSat := a.hueSat.insert device folded.1 })
  else (reportToEvents a.byNode r,a)

def hearAll (a : MatterAdapter C) : List AttrReport → List Event × MatterAdapter C
  | [] => ([],a)
  | r :: rs =>
    let first := a.hear r
    let rest := first.2.hearAll rs
    (first.1 ++ rest.1,rest.2)

variable [MatterController C]

def dispatch (a : MatterAdapter C) (cmd : Command) : DispatchOutcome × MatterAdapter C :=
  match cmd.targetDevice with
  | none => (.permanent "command has no target device",a)
  | some device =>
    match a.byId.lookup device with
    | none => (.permanent "device is not managed by this adapter",a)
    | some address =>
      match commandToCluster cmd with
      | none => (.permanent "command unsupported by matter",a)
      | some clusterCmd =>
        match MatterController.invoke a.controller address clusterCmd with
        | (.ok _,c) => (.ok [],{ a with controller := c })
        | (.error e,c) => (.transient e,{ a with controller := c })

def tick (a : MatterAdapter C) : List Event × MatterAdapter C :=
  let polled := MatterController.poll a.controller
  { a with controller := polled.2 }.hearAll polled.1

instance : Adapter (MatterAdapter C) where
  dispatch a cmd _ := a.dispatch cmd
  tick a _ := a.tick

end MatterAdapter

/-- The decimal node id of an address, with the protocol's default endpoint. -/
def nodeTarget (bound : ℕ) (endpoint : UInt16) (d : DeviceDef) : Option (DeviceId × NodeAddress) :=
  (d.address.bind fun address => Text.parseUnsigned bound address.toList).map fun node =>
    (d.id,node,d.endpoint.getD endpoint)

/-- A Matter device is on endpoint 1 unless it says otherwise. -/
def Matter.target : DeviceDef → Option (DeviceId × NodeAddress) := nodeTarget (2^64-1) 1

/-- `Plugin::build`; `connect` opens the controller at a url. -/
def MatterAdapter.build {C : Type} (connect : String → C) (config : Value)
    (devices : List DeviceDef) : MatterAdapter C :=
  .new (devices.filterMap Matter.target) (connect ((decodeUrl config).getD ""))

end Domiform
