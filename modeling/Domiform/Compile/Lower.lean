import Domiform.Compile.Plugin
import Domiform.Library.Checked
import Domiform.Library.HashMap
import Domiform.Rule

/-! Lowering: raw rule and scene nodes to triggers, conditions and commands. A node is a single-key
map from a verb to its payload. The pass notes every diagnostic and every key, scene and schedule
it comes across, and goes on. -/
namespace Domiform
open Library

/-- What lowering writes down: diagnostics, and what the whole-program lints need. -/
inductive Note
  | diagnostic (d : Diagnostic)
  | scheduledKey (key : String)
  | referencedKey (key : String)
  | usedScene (scene : SceneId)
  | referencedSchedule (schedule : ScheduleId)
  deriving DecidableEq

def Note.diagnostic? : Note → Option Diagnostic
  | diagnostic d => some d
  | _ => none

def Note.isError : Note → Bool
  | diagnostic d => d.isError
  | _ => false

abbrev Lower (α : Type) := Checked Note α

/-- `parse_capability`: the synthetic clock capabilities are no device's. -/
def parseCapability (s : String) : Option CapabilityKind :=
  match CapabilityKind.fromName s with
  | some .timeOfDay | some .sunUp => none
  | kind => kind

/-- The duration a text like `30s`, `10m` or `1h` stands for. -/
def durationOf (s : String) : Option Millis :=
  let trimmed := Text.trim s.toList
  let num := trimmed.takeWhile fun c => !c.isAlpha
  let unit := trimmed.dropWhile fun c => !c.isAlpha
  match Text.parseUnsigned (2^64-1) (Text.trim num) with
  | none => none
  | some n =>
    let mult :=
      if unit = ['m','s'] then some 1
      else if unit = ['s'] then some 1000
      else if unit = ['m'] then some 60000
      else if unit = ['h'] then some 3600000
      else none
    match mult with
    | none => none
    | some mult => if n*mult < 2^64 then some (n*mult) else none

/-- Hours and minutes of an `HH:MM` text. -/
def clockOf (s : String) : Option (ℕ × ℕ) :=
  match Text.splitOnce ':' (Text.trim s.toList) with
  | none => none
  | some (h,m) =>
    match Text.parseUnsigned 65535 (Text.trim h),Text.parseUnsigned 65535 (Text.trim m) with
    | some h,some m => if h < 24 ∧ m < 60 then some (h,m) else none
    | _,_ => none

/-- The tables that lowering resolves names against. -/
structure Lowerer where
  lib : Libraries
  devices : List DeviceDef
  deviceIndex : HashMap String DeviceId
  sceneIndex : HashMap String SceneId
  scheduleIndex : HashMap String ScheduleId
  clockDevice : DeviceId

namespace Lowerer
variable {α : Type}

def error (code message context : String) : Lower α :=
  .fail (.diagnostic ((Diagnostic.error code message).place context))

def badNode (node context : String) : Lower α :=
  error "E_BAD_NODE" (node ++ " must be a single-key map like \x7b verb: target \x7d") context

/-- The single `verb: payload` entry of a node. -/
def singleEntry (v : Value) (node context : String) : Lower (String × Value) :=
  match v with
  | .mapping [(k,payload)] =>
    match k.asStr with
    | some verb => pure (verb,payload)
    | none => badNode node context
  | _ => badNode node context

def asName (v : Value) (node context : String) : Lower String :=
  match v.asStr with
  | some s => pure s
  | none => error "E_BAD_NODE" ("'" ++ node ++ "' expects a name") context

def asFlag (v : Value) (node context : String) : Lower Bool :=
  match v.asBool with
  | some b => pure b
  | none => error "E_BAD_NODE" ("'" ++ node ++ "' expects true/false") context

variable (lw : Lowerer)

/-- Expand merge keys, then decode. -/
def payload (decode : Value → Option α) (v : Value) (node context : String) : Lower α :=
  match v.applyMerge with
  | .error e => error "E_BAD_NODE" ("invalid '" ++ node ++ "': " ++ lw.lib.mergeError e) context
  | .ok v =>
    match decode v with
    | some t => pure t
    | none =>
      error "E_BAD_NODE" ("invalid '" ++ node ++ "': " ++ lw.lib.decodeError node v) context

def resolveDevice (name context : String) : Lower DeviceId :=
  match lw.deviceIndex.lookup name with
  | some id => pure id
  | none => error "E_UNKNOWN_DEVICE" ("unknown device '" ++ name ++ "'") context

/-- The clock device provides time and sun without declaring them. -/
def requireCap (id : DeviceId) (name : String) (cap : CapabilityKind) (usage context : String) :
    Lower Unit :=
  if id = lw.clockDevice then pure ()
  else
    let has := ((lw.devices[id.val]?).map fun d => decide (cap ∈ d.capabilities)).getD false
    if has then pure ()
    else .note (.diagnostic ((Diagnostic.error "E_MISSING_CAPABILITY"
      ("'" ++ usage ++ "' needs capability " ++ cap.debugName ++ ", which device '" ++ name ++
        "' does not declare")).place context))

def parseCmpOp (s context : String) : Lower CmpOp :=
  if s = "<" then pure .lt
  else if s = "<=" then pure .le
  else if s = "==" then pure .eq
  else if s = "!=" then pure .ne
  else if s = ">=" then pure .ge
  else if s = ">" then pure .gt
  else error "E_BAD_OP"
    ("unknown comparison operator '" ++ s ++ "' (expected <, <=, ==, !=, >=, >)") context

/-- A capability of the wanted shape. Naming one of another shape is reported as `code`. -/
def shapedCapability (shape : CapabilityKind → Bool) (code message name context : String) :
    Lower CapabilityKind :=
  match parseCapability name with
  | some kind => if shape kind then pure kind else error code message context
  | none => error "E_BAD_CAPABILITY" ("unknown capability '" ++ name ++ "'") context

def numericCapability (name context : String) : Lower CapabilityKind :=
  shapedCapability CapabilityKind.isNumeric "E_NON_NUMERIC_CAPABILITY"
    ("'compare' needs a numeric capability, but '" ++ name ++ "' is not numeric-shaped") name context

def boolCapability (name context : String) : Lower CapabilityKind :=
  shapedCapability CapabilityKind.isBool "E_NON_BOOL_CAPABILITY"
    ("'changed' needs a bool capability, but '" ++ name ++ "' is not bool-shaped") name context

def anyCapability (name context : String) : Lower CapabilityKind :=
  shapedCapability (fun _ => true) "" "" name context

def parseDuration (s context : String) : Lower Millis :=
  match durationOf s with
  | some ms => pure ms
  | none =>
    error "E_BAD_DURATION" ("invalid duration '" ++ s ++ "' (expected e.g. 30s, 10m, 1h)") context

/-- An optional fade. -/
def parseTransition (s : Option String) (context : String) : Lower (Option Millis) :=
  match s with
  | some s => do
    let ms ← parseDuration s context
    pure (some ms)
  | none => pure none

/-- Minutes since midnight. -/
def parseTime (s context : String) : Lower ℤ :=
  match clockOf s with
  | some (h,m) => pure (h*60+m : ℕ)
  | none => error "E_BAD_TIME" ("invalid time '" ++ s ++ "' (expected HH:MM)") context

def parseColor (v : Value) (context : String) : Lower (UInt8 × UInt8 × UInt8) :=
  let bad : Lower (UInt8 × UInt8 × UInt8) := error "E_BAD_COLOR"
    "color must be a `#RRGGBB` hex string or `\x7b r, g, b \x7d` object with values 0–255" context
  match v.asStr with
  | some s =>
    match Text.hexToRgb s.toList with
    | some rgb => pure rgb
    | none =>
      error "E_BAD_COLOR" ("invalid hex color '" ++ s ++ "' (expected `#RRGGBB`)") context
  | none =>
    match v with
    | .mapping m =>
      match (Value.get m "r").bind Value.asU64,(Value.get m "g").bind Value.asU64,
        (Value.get m "b").bind Value.asU64 with
      | some r,some g,some b =>
        if r ≤ 255 ∧ g ≤ 255 ∧ b ≤ 255 then pure (UInt8.ofNat r,UInt8.ofNat g,UInt8.ofNat b)
        else bad
      | _,_,_ => bad
    | _ => bad

/-- Exactly one of `kelvin` and `mireds`, as mireds. -/
def parseColorTemperature (raw : RawSetColorTemperature) (context : String) : Lower UInt16 :=
  match raw.kelvin,raw.mireds with
  | some _,some _ => error "E_BAD_COLOR_TEMP"
      "set_color_temperature must set exactly one of `kelvin` or `mireds`" context
  | none,none => error "E_BAD_COLOR_TEMP"
      "set_color_temperature needs one of `kelvin` or `mireds`" context
  | some kelvin,none =>
    if 1000 ≤ kelvin.toNat ∧ kelvin.toNat ≤ 10000 then
      pure (UInt16.ofNat (min (1000000/kelvin.toNat) 65535))
    else error "E_BAD_COLOR_TEMP"
      ("kelvin " ++ toString kelvin.toNat ++ " out of range (expected 1000–10000)") context
  | none,some mireds =>
    if 100 ≤ mireds.toNat ∧ mireds.toNat ≤ 1000 then pure mireds
    else error "E_BAD_COLOR_TEMP"
      ("mireds " ++ toString mireds.toNat ++ " out of range (expected 100–1000)") context

/-- An event that the device declares. -/
def resolveEvent (device : DeviceId) (devName event context : String) : Lower ActionId :=
  match lw.devices[device.val]? with
  | none => .silent
  | some dev =>
    match dev.events.find? fun e => e.name == event with
    | some e => pure e.id
    | none => error "E_UNKNOWN_EVENT"
        ("device '" ++ devName ++ "' declares no event '" ++ event ++ "'") context

def crossBound (above below : Option ℤ) (context : String) : Lower (ℤ × CrossDir) :=
  match above,below with
  | some _,some _ =>
    error "E_BAD_CROSS" "'crosses' must set exactly one of `above` or `below`" context
  | none,none => error "E_BAD_CROSS" "'crosses' needs one of `above` or `below`" context
  | some v,none => pure (v,.above)
  | none,some v => pure (v,.below)

/-- The trigger a verb and its payload stand for. -/
def triggerOf (verb : String) (payload : Value) (context : String) : Lower Trigger :=
  if verb = "event" then do
    let spec ← asName payload "event" context
    match Text.splitOnce '.' spec.toList with
    | none =>
      error "E_BAD_NODE" ("event trigger must be '<device>.<event>', got '" ++ spec ++ "'") context
    | some (devName,eventName) =>
      let device ← lw.resolveDevice (.ofList devName) context
      let action ← lw.resolveEvent device (.ofList devName) (.ofList eventName) context
      pure (.action device action)
  else if verb = "changed" then do
    let c ← lw.payload RawChanged.decode payload "changed" context
    let device ← lw.resolveDevice c.device context
    let kind ← boolCapability c.capability context
    lw.requireCap device c.device kind "changed" context
    pure (.changed device kind c.target)
  else if verb = "crosses" then do
    let c ← lw.payload RawCrosses.decode payload "crosses" context
    let device ← lw.resolveDevice c.device context
    let kind ← numericCapability c.capability context
    lw.requireCap device c.device kind "crosses" context
    let (bound,dir) ← crossBound c.above c.below context
    pure (.crosses device kind bound dir)
  else if verb = "reports" then do
    let r ← lw.payload RawReports.decode payload "reports" context
    let device ← lw.resolveDevice r.device context
    let kind ← anyCapability r.capability context
    lw.requireCap device r.device kind "reports" context
    pure (.reports device kind)
  else if verb = "timer" then do
    let key ← asName payload "timer" context
    Checked.note (.referencedKey key)
    pure (.timer ⟨key⟩)
  else if verb = "schedule" then do
    let name ← asName payload "schedule" context
    match lw.scheduleIndex.lookup name with
    | some schedule =>
      Checked.note (.referencedSchedule schedule)
      pure (.time schedule)
    | none => error "E_UNKNOWN_SCHEDULE" ("unknown schedule '" ++ name ++ "'") context
  else if verb = "command_failed" then do
    let spec ← asName payload "command_failed" context
    if spec = "*" then pure (.commandFailed none)
    else
      let device ← lw.resolveDevice spec context
      pure (.commandFailed (some device))
  else error "E_UNKNOWN_TRIGGER" ("unknown trigger '" ++ verb ++ "'") context

def trigger (context : String) (v : Value) : Lower Trigger := do
  let (verb,payload) ← singleEntry v "trigger" context
  lw.triggerOf verb payload context

/-- The conditions that hold no other condition. -/
def leafCondition (verb : String) (payload : Value) (context : String) : Lower Condition :=
  if verb = "sun_up" then do
    let up ← asFlag payload "sun_up" context
    pure (.boolEquals lw.clockDevice .sunUp up)
  else if verb = "switch" then do
    let s ← lw.payload RawSwitchIs.decode payload "switch" context
    let device ← lw.resolveDevice s.device context
    lw.requireCap device s.device .switch "switch" context
    pure (.boolEquals device .switch s.on)
  else if verb = "occupancy_is" then do
    let o ← lw.payload RawOccupancyIs.decode payload "occupancy_is" context
    let device ← lw.resolveDevice o.device context
    lw.requireCap device o.device .occupancy "occupancy_is" context
    pure (.boolEquals device .occupancy o.occupied)
  else if verb = "compare" then do
    let c ← lw.payload RawCompare.decode payload "compare" context
    let device ← lw.resolveDevice c.device context
    let kind ← numericCapability c.capability context
    let op ← parseCmpOp c.op context
    lw.requireCap device c.device kind "compare" context
    pure (.compare device kind op c.value)
  else if verb = "color_is" then do
    let c ← lw.payload RawColorIs.decode payload "color_is" context
    let device ← lw.resolveDevice c.device context
    lw.requireCap device c.device .color "color_is" context
    let (r,g,b) ← parseColor c.color context
    pure (.colorEquals device r g b)
  else if verb = "time_after" then do
    let t ← asName payload "time_after" context
    let minute ← parseTime t context
    pure (.compare lw.clockDevice .timeOfDay .ge minute)
  else if verb = "time_before" then do
    let t ← asName payload "time_before" context
    let minute ← parseTime t context
    pure (.compare lw.clockDevice .timeOfDay .lt minute)
  else error "E_UNKNOWN_CONDITION" ("unknown condition '" ++ verb ++ "'") context

mutual
def condition (context : String) (v : Value) : Lower Condition :=
  match v with
  | .mapping [(k,payload)] =>
    match k.asStr with
    | none => badNode "condition" context
    | some verb =>
      if verb = "all" then conditionList context verb payload >>= fun cs => pure (.and cs)
      else if verb = "any" then conditionList context verb payload >>= fun cs => pure (.or cs)
      else if verb = "not" then condition context payload >>= fun c => pure (.not c)
      else lw.leafCondition verb payload context
  | _ => badNode "condition" context
termination_by structural v
/-- `condition_list`: the list may carry tags. -/
def conditionList (context node : String) (v : Value) : Lower (List Condition) :=
  match v with
  | .tagged _ v => conditionList context node v
  | .sequence items => conditionItems context items
  | _ => error "E_BAD_NODE" ("'" ++ node ++ "' expects a list of conditions") context
termination_by structural v
/-- Every item is looked at; all must succeed. -/
def conditionItems (context : String) (items : List Value) : Lower (List Condition) :=
  match items with
  | [] => pure []
  | v :: vs =>
    let c := condition context v
    let cs := conditionItems context vs
    ⟨c.value.bind fun c => cs.value.map (c :: ·),c.notes ++ cs.notes⟩
termination_by structural items
end

/-- The command a verb and its payload stand for. -/
def commandOf (verb : String) (payload : Value) (context : String) : Lower Command :=
  if verb = "turn_on" ∨ verb = "turn_off" then do
    let name ← asName payload verb context
    let device ← lw.resolveDevice name context
    lw.requireCap device name .switch verb context
    pure (.setSwitch device (verb == "turn_on"))
  else if verb = "toggle" then do
    let name ← asName payload "toggle" context
    let device ← lw.resolveDevice name context
    lw.requireCap device name .switch "toggle" context
    pure (.toggleSwitch device)
  else if verb = "set_brightness" then do
    let b ← lw.payload RawSetBrightness.decode payload "set_brightness" context
    let device ← lw.resolveDevice b.device context
    lw.requireCap device b.device .brightness "set_brightness" context
    let transition ← parseTransition b.transition context
    pure (.setBrightness device b.value transition)
  else if verb = "decrease_brightness" then do
    let b ← lw.payload RawStepBrightness.decode payload "decrease_brightness" context
    let device ← lw.resolveDevice b.device context
    lw.requireCap device b.device .brightness "decrease_brightness" context
    pure (.decreaseBrightness device b.value)
  else if verb = "increase_brightness" then do
    let b ← lw.payload RawStepBrightness.decode payload "increase_brightness" context
    let device ← lw.resolveDevice b.device context
    lw.requireCap device b.device .brightness "increase_brightness" context
    pure (.increaseBrightness device b.value)
  else if verb = "set_color" then do
    let c ← lw.payload RawSetColor.decode payload "set_color" context
    let device ← lw.resolveDevice c.device context
    lw.requireCap device c.device .color "set_color" context
    let (r,g,b) ← parseColor c.color context
    let transition ← parseTransition c.transition context
    pure (.setColor device r g b transition)
  else if verb = "set_color_temperature" then do
    let c ← lw.payload RawSetColorTemperature.decode payload "set_color_temperature" context
    let device ← lw.resolveDevice c.device context
    lw.requireCap device c.device .colorTemperature "set_color_temperature" context
    let mireds ← parseColorTemperature c context
    let transition ← parseTransition c.transition context
    pure (.setColorTemperature device mireds transition)
  else if verb = "activate_scene" then do
    let name ← asName payload "activate_scene" context
    match lw.sceneIndex.lookup name with
    | some scene =>
      Checked.note (.usedScene scene)
      pure (.activateScene scene)
    | none => error "E_UNKNOWN_SCENE" ("unknown scene '" ++ name ++ "'") context
  else if verb = "schedule_timer" then do
    let s ← lw.payload RawScheduleTimer.decode payload "schedule_timer" context
    Checked.note (.scheduledKey s.key)
    let after ← parseDuration s.after context
    pure (.scheduleTimer ⟨s.key⟩ after)
  else if verb = "cancel_timer" then do
    let key ← asName payload "cancel_timer" context
    Checked.note (.referencedKey key)
    pure (.cancelTimer ⟨key⟩)
  else if verb = "send_ir_code" then do
    let ir ← lw.payload RawSendIrCode.decode payload "send_ir_code" context
    let device ← lw.resolveDevice ir.device context
    lw.requireCap device ir.device .irTransmitter "send_ir_code" context
    pure (.sendIrCode device ir.code)
  else error "E_UNKNOWN_COMMAND" ("unknown command '" ++ verb ++ "'") context

def command (context : String) (v : Value) : Lower Command := do
  let (verb,payload) ← singleEntry v "command" context
  lw.commandOf verb payload context

/-- Lower a list of commands; what does not lower is noted and left out. -/
def commands (context : String) (raws : List Value) : Lower (List Command) :=
  Checked.collect (lw.command context) raws

/-- A rule's `for:`, valid on edge triggers only. -/
def forDuration (raw : String) (trigger : Trigger) (context : String) : Lower Millis :=
  if trigger.watched.isNone then
    error "E_FOR_UNSUPPORTED"
      "'for:' is only valid on an edge trigger (`changed` or `crosses`)" context
  else parseDuration raw context

end Lowerer
end Domiform
