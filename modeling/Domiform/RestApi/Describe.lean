import Domiform.RestApi.Names

/-! Triggers, conditions and commands on the wire. Ids are resolved to the names they were written
under; nothing here can fail. -/
namespace Domiform

/-- A value, or an explicit `null`. -/
def Json.orNull (value : Option Json) : Json := value.getD .null

def Json.ofMillis (ms : Option Millis) : Json := .orNull (ms.map fun n => .int n)

def Json.ofColor (r g b : UInt8) : Json :=
  .ofFields [("r",.int r.toNat),("g",.int g.toNat),("b",.int b.toNat)]

namespace Describe

def trigger (directory : NamedDirectory) : Trigger → Json
  | .action device action => .ofFields [
      ("type",.string "event"),
      ("device",.string (directory.deviceName device)),
      ("event",.string (directory.actionName device action))]
  | .changed device kind target => .ofFields [
      ("type",.string "changed"),
      ("device",.string (directory.deviceName device)),
      ("capability",.string kind.name),
      ("to",.bool target)]
  | .crosses device kind bound dir => .ofFields [
      ("type",.string "crosses"),
      ("device",.string (directory.deviceName device)),
      ("capability",.string kind.name),
      ("bound",.int bound),
      ("dir",.string (match dir with | .above => "above" | .below => "below"))]
  | .reports device kind => .ofFields [
      ("type",.string "reports"),
      ("device",.string (directory.deviceName device)),
      ("capability",.string kind.name)]
  | .timer key => .ofFields [("type",.string "timer"),("key",.string key.name)]
  | .time schedule => .ofFields [
      ("type",.string "time"),
      ("schedule",.string (directory.scheduleName schedule))]
  | .commandFailed device => .ofFields [
      ("type",.string "command_failed"),
      ("device",.orNull (device.map fun d => .string (directory.deviceName d)))]

def cmpOp : CmpOp → String
  | .lt => "lt"
  | .le => "le"
  | .eq => "eq"
  | .ne => "ne"
  | .ge => "ge"
  | .gt => "gt"

mutual
def condition (directory : NamedDirectory) : Condition → Json
  | .always => .bool true
  | .not inner => .ofFields [("type",.string "not"),("of",condition directory inner)]
  | .and cs => .ofFields [("type",.string "and"),("of",.array (conditions directory cs))]
  | .or cs => .ofFields [("type",.string "or"),("of",.array (conditions directory cs))]
  | .boolEquals device kind value => .ofFields [
      ("type",.string "bool_equals"),
      ("device",.string (directory.deviceName device)),
      ("capability",.string kind.name),
      ("value",.bool value)]
  | .compare device kind op value => .ofFields [
      ("type",.string "compare"),
      ("device",.string (directory.deviceName device)),
      ("capability",.string kind.name),
      ("op",.string (cmpOp op)),
      ("value",.int value)]
  | .colorEquals device r g b => .ofFields [
      ("type",.string "color_equals"),
      ("device",.string (directory.deviceName device)),
      ("color",.ofColor r g b)]

def conditions (directory : NamedDirectory) : List Condition → List Json
  | [] => []
  | c :: cs => condition directory c :: conditions directory cs
end

/-- The code of `SendIrCode` is left out. -/
def command (directory : NamedDirectory) : Command → Json
  | .setSwitch device on => .ofFields [
      ("type",.string "set_switch"),
      ("device",.string (directory.deviceName device)),
      ("on",.bool on)]
  | .toggleSwitch device => .ofFields [
      ("type",.string "toggle_switch"),
      ("device",.string (directory.deviceName device))]
  | .setBrightness device value transition => .ofFields [
      ("type",.string "set_brightness"),
      ("device",.string (directory.deviceName device)),
      ("value",.int value.toNat),
      ("transition_ms",.ofMillis transition)]
  | .increaseBrightness device value => .ofFields [
      ("type",.string "increase_brightness"),
      ("device",.string (directory.deviceName device)),
      ("by",.int value.toNat)]
  | .decreaseBrightness device value => .ofFields [
      ("type",.string "decrease_brightness"),
      ("device",.string (directory.deviceName device)),
      ("by",.int value.toNat)]
  | .setColor device r g b transition => .ofFields [
      ("type",.string "set_color"),
      ("device",.string (directory.deviceName device)),
      ("color",.ofColor r g b),
      ("transition_ms",.ofMillis transition)]
  | .setColorTemperature device mireds transition => .ofFields [
      ("type",.string "set_color_temperature"),
      ("device",.string (directory.deviceName device)),
      ("mireds",.int mireds.toNat),
      ("transition_ms",.ofMillis transition)]
  | .activateScene scene => .ofFields [
      ("type",.string "activate_scene"),
      ("scene",.string (directory.sceneName scene))]
  | .scheduleTimer key after => .ofFields [
      ("type",.string "schedule_timer"),
      ("key",.string key.name),
      ("after_ms",.int after)]
  | .cancelTimer key => .ofFields [("type",.string "cancel_timer"),("key",.string key.name)]
  | .sendIrCode device _ => .ofFields [
      ("type",.string "send_ir_code"),
      ("device",.string (directory.deviceName device))]

def commands (directory : NamedDirectory) (cmds : List Command) : List Json :=
  cmds.map (command directory)

/-- What a rule says in the config. -/
def ruleShape (directory : NamedDirectory) (rule : Rule) : Json :=
  .ofFields [
    ("name",.string rule.name),
    ("trigger",trigger directory rule.trigger),
    ("condition",condition directory rule.condition),
    ("then",.array (commands directory rule.commands)),
    ("for_ms",.ofMillis rule.forDuration)]

end Describe
end Domiform
