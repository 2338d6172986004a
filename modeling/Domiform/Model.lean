import Mathlib.Data.List.AList
import Mathlib.Tactic

/-! The canonical vocabulary of the engine: interned ids, capabilities, events and commands.
Text is a `String`, ids are indices, and the payloads keep the integer widths of the source. -/
namespace Domiform

/-- Logical milliseconds (`u64`). Sums wrap where the engine adds two of them. -/
abbrev Millis := ℕ

/-- Unchecked `u64` addition. -/
def addMillis (a b : Millis) : Millis := (a+b) % 2^64

lemma addMillis_of_lt {a b : Millis} (h : a+b < 2^64) : addMillis a b = a+b :=
  Nat.mod_eq_of_lt h

structure DeviceId where
  val : ℕ
  deriving DecidableEq, Repr

structure RuleId where
  val : ℕ
  deriving DecidableEq, Repr

structure SceneId where
  val : ℕ
  deriving DecidableEq, Repr

structure ScheduleId where
  val : ℕ
  deriving DecidableEq, Repr

structure ActionId where
  val : ℕ
  deriving DecidableEq, Repr

/-- Index into the engine's adapter table. Adapter 0 is the scheduler. -/
abbrev AdapterIdx := ℕ

inductive CapabilityKind
  | switch | brightness | color | colorTemperature | occupancy | battery | temperature
  | humidity | illuminance | power | contact | waterLeak | smoke | irTransmitter
  | timeOfDay | sunUp
  deriving DecidableEq, Repr

namespace CapabilityKind

def isNumeric : CapabilityKind → Bool
  | brightness | battery | colorTemperature | timeOfDay | temperature | humidity
  | illuminance | power => true
  | _ => false

def isBool : CapabilityKind → Bool
  | switch | occupancy | sunUp | contact | waterLeak | smoke => true
  | _ => false

/-- The canonical config and wire name. -/
def name : CapabilityKind → String
  | switch => "switch"
  | brightness => "brightness"
  | color => "color"
  | colorTemperature => "color_temperature"
  | occupancy => "occupancy"
  | battery => "battery"
  | temperature => "temperature"
  | humidity => "humidity"
  | illuminance => "illuminance"
  | power => "power"
  | contact => "contact"
  | waterLeak => "water_leak"
  | smoke => "smoke"
  | irTransmitter => "ir_transmitter"
  | timeOfDay => "time_of_day"
  | sunUp => "sun_up"

/-- The spelling `{kind:?}` prints, used in one diagnostic. -/
def debugName : CapabilityKind → String
  | switch => "Switch"
  | brightness => "Brightness"
  | color => "Color"
  | colorTemperature => "ColorTemperature"
  | occupancy => "Occupancy"
  | battery => "Battery"
  | temperature => "Temperature"
  | humidity => "Humidity"
  | illuminance => "Illuminance"
  | power => "Power"
  | contact => "Contact"
  | waterLeak => "WaterLeak"
  | smoke => "Smoke"
  | irTransmitter => "IrTransmitter"
  | timeOfDay => "TimeOfDay"
  | sunUp => "SunUp"

/-- Inverse of `name`, the synthetic clock capabilities included. -/
def fromName (s : String) : Option CapabilityKind :=
  if s = "switch" then some switch
  else if s = "brightness" then some brightness
  else if s = "color" then some color
  else if s = "color_temperature" then some colorTemperature
  else if s = "occupancy" then some occupancy
  else if s = "battery" then some battery
  else if s = "temperature" then some temperature
  else if s = "humidity" then some humidity
  else if s = "illuminance" then some illuminance
  else if s = "power" then some power
  else if s = "contact" then some contact
  else if s = "water_leak" then some waterLeak
  else if s = "smoke" then some smoke
  else if s = "ir_transmitter" then some irTransmitter
  else if s = "time_of_day" then some timeOfDay
  else if s = "sun_up" then some sunUp
  else none

/-- Whether some command sets this capability. -/
def isWritable : CapabilityKind → Bool
  | switch | brightness | color | colorTemperature | irTransmitter => true
  | _ => false

theorem name_injective : Function.Injective name := by
  intro a b h
  cases a <;> cases b <;> first | rfl | exact absurd h (by decide)

@[simp] theorem fromName_name (k : CapabilityKind) : fromName k.name = some k := by
  cases k <;> decide

end CapabilityKind

inductive CapabilityState
  | switch (on : Bool)
  | brightness (value : UInt8)
  | color (r g b : UInt8)
  | colorTemperature (mireds : UInt16)
  | occupancy (on : Bool)
  | battery (value : UInt8)
  | temperature (centidegrees : Int16)
  | humidity (value : UInt8)
  | illuminance (lux : UInt32)
  | power (watts : UInt32)
  | contact (isOpen : Bool)
  | waterLeak (detected : Bool)
  | smoke (detected : Bool)
  | timeOfDay (minute : UInt16)
  | sunUp (up : Bool)
  deriving DecidableEq

namespace CapabilityState

def kind : CapabilityState → CapabilityKind
  | switch _ => .switch
  | brightness _ => .brightness
  | color _ _ _ => .color
  | colorTemperature _ => .colorTemperature
  | occupancy _ => .occupancy
  | battery _ => .battery
  | temperature _ => .temperature
  | humidity _ => .humidity
  | illuminance _ => .illuminance
  | power _ => .power
  | contact _ => .contact
  | waterLeak _ => .waterLeak
  | smoke _ => .smoke
  | timeOfDay _ => .timeOfDay
  | sunUp _ => .sunUp

def asBool : CapabilityState → Option Bool
  | switch b | occupancy b | sunUp b | contact b | waterLeak b | smoke b => some b
  | _ => none

def asI64 : CapabilityState → Option ℤ
  | brightness v | battery v | humidity v => some v.toNat
  | colorTemperature v | timeOfDay v => some v.toNat
  | temperature v => some v.toInt
  | illuminance v | power v => some v.toNat
  | _ => none

theorem asBool_isSome (s : CapabilityState) : s.asBool.isSome = s.kind.isBool := by
  cases s <;> rfl

theorem asI64_isSome (s : CapabilityState) : s.asI64.isSome = s.kind.isNumeric := by
  cases s <;> rfl

end CapabilityState

/-- What a consumer asked for. -/
inductive Desired
  | set (state : CapabilityState)
  | toggle
  | adjustBrightness (delta : Int8)
  | sendIr (code : String)
  deriving DecidableEq

/-- The capability an intent concerns. -/
def Desired.kind : Desired → CapabilityKind
  | set state => state.kind
  | toggle => .switch
  | adjustBrightness _ => .brightness
  | sendIr _ => .irTransmitter

structure TimerKey where
  name : String
  deriving DecidableEq, Repr

/-- `key.0.starts_with(p)`, on the characters of the key. -/
def TimerKey.startsWith (key : TimerKey) (p : String) : Bool :=
  p.toList.isPrefixOf key.name.toList

inductive Command
  | setSwitch (device : DeviceId) (on : Bool)
  | toggleSwitch (device : DeviceId)
  | setBrightness (device : DeviceId) (value : UInt8) (transition : Option Millis)
  | decreaseBrightness (device : DeviceId) (value : UInt8)
  | increaseBrightness (device : DeviceId) (value : UInt8)
  | setColor (device : DeviceId) (r g b : UInt8) (transition : Option Millis)
  | setColorTemperature (device : DeviceId) (mireds : UInt16) (transition : Option Millis)
  | activateScene (scene : SceneId)
  | scheduleTimer (key : TimerKey) (after : Millis)
  | cancelTimer (key : TimerKey)
  | sendIrCode (device : DeviceId) (code : String)
  deriving DecidableEq

namespace Command

/-- The device a command targets. Scene and scheduler commands are routed specially. -/
def targetDevice : Command → Option DeviceId
  | setSwitch device _ => some device
  | toggleSwitch device => some device
  | setBrightness device _ _ => some device
  | decreaseBrightness device _ => some device
  | increaseBrightness device _ => some device
  | setColor device _ _ _ _ => some device
  | setColorTemperature device _ _ => some device
  | sendIrCode device _ => some device
  | activateScene _ | scheduleTimer _ _ | cancelTimer _ => none

/-- `matches!(cmd, ScheduleTimer | CancelTimer)`. -/
def isTimer : Command → Bool
  | scheduleTimer _ _ | cancelTimer _ => true
  | _ => false

end Command

inductive Event
  | action (device : DeviceId) (action : ActionId)
  | stateReported (device : DeviceId) (state : CapabilityState)
  | requestedChange (device : DeviceId) (desired : Desired)
  | requestedScene (scene : SceneId)
  | timeReached (schedule : ScheduleId)
  | timerElapsed (key : TimerKey)
  | commandFailed (command : Command) (reason : String) (attempts : ℕ)
  deriving DecidableEq

/-- Whether the event is the expiry of a timer. -/
def Event.isTimerElapsed : Event → Bool
  | timerElapsed _ => true
  | _ => false

end Domiform
