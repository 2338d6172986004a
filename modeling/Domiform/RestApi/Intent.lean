import Domiform.Adapters.Units
import Domiform.RestApi

/-! The write edge of the REST API: what a body may ask of a device, checked against what the device
declared. A body that is no JSON stands as the text of the parser's error. -/
namespace Domiform

namespace Json

def asI64 : Json → Option ℤ
  | int n => if -2^63 ≤ n ∧ n < 2^63 then some n else none
  | _ => none

/-- `type_of`: the name of a type in an error message. -/
def typeOf : Json → String
  | null => "null"
  | bool _ => "a boolean"
  | fraction _ => "a fractional number"
  | int _ => "a number"
  | string _ => "a string"
  | array _ => "an array"
  | object _ => "an object"

end Json

/-- An integer in `low..=high`; a fraction is an error, not rounded. -/
def intOf (value : Json) (name : String) (low high : ℤ) : Except String ℤ :=
  match value.asI64 with
  | none => .error ("'" ++ name ++ "' expects an integer, got " ++ value.typeOf)
  | some n =>
    if n < low ∨ high < n then
      .error ("'" ++ name ++ "' must be between " ++ toString low ++ " and " ++ toString high ++
        ", got " ++ toString n)
    else .ok n

/-- Integers within bounds that fit an `i64`. -/
theorem intOf_eq_ok {value : Json} {name : String} {low high n : ℤ} (hl : -2^63 ≤ low)
    (hh : high < 2^63) :
    intOf value name low high = .ok n ↔ value = .int n ∧ low ≤ n ∧ n ≤ high := by
  cases value with
  | int m =>
    simp only [intOf,Json.asI64,Json.int.injEq]
    by_cases hm : -2^63 ≤ m ∧ m < 2^63
    · rw [if_pos hm]
      by_cases hr : m < low ∨ high < m
      · simp only [if_pos hr,reduceCtorEq,false_iff]
        omega
      · simp only [if_neg hr,Except.ok.injEq]
        omega
    · simp only [if_neg hm,reduceCtorEq,false_iff]
      omega
  | _ => simp [intOf,Json.asI64]

theorem map_eq_ok {α β : Type} {x : Except String α} {f : α → β} {b : β} :
    x.map f = .ok b ↔ ∃ a, x = .ok a ∧ f a = b := by
  cases x <;> simp [Except.map]

/-- A percentage capability: an integer `0..=100`. -/
def pctOf (value : Json) (name : String) : Except String UInt8 := do
  let n ← intOf value name 0 100
  .ok (UInt8.ofNat n.toNat)

def boolOf (value : Json) (name : String) : Except String Bool :=
  match value.asBool with
  | some b => .ok b
  | none => .error ("'" ++ name ++ "' expects a boolean, got " ++ value.typeOf)

/-- One channel of a color. -/
def channelOf (fields : List (String × Json)) (key : String) : Except String UInt8 :=
  match fields.lookup key with
  | none => .error ("'color' is missing '" ++ key ++ "'")
  | some value => do
    let n ← intOf value ("color." ++ key) 0 255
    .ok (UInt8.ofNat n.toNat)

def colorOf (value : Json) : Except String CapabilityState :=
  match value with
  | .object fields => do
    let r ← channelOf fields "r"
    let g ← channelOf fields "g"
    let b ← channelOf fields "b"
    match fields.find? fun field => field.1 ≠ "r" ∧ field.1 ≠ "g" ∧ field.1 ≠ "b" with
    | some extra => .error ("'color' has unexpected key '" ++ extra.1 ++ "'")
    | none => .ok (.color r g b)
  | _ => .error ("'color' expects an object like \x7b\"r\":255,\"g\":170,\"b\":0\x7d, got " ++
      value.typeOf)

/-- `state_from_json`: every scalar is checked against its canonical range. -/
def stateFromJson (kind : CapabilityKind) (value : Json) : Except String CapabilityState :=
  let name := kind.name
  match kind with
  | .switch => (boolOf value name).map .switch
  | .brightness => (pctOf value name).map .brightness
  | .color => colorOf value
  | .colorTemperature => (intOf value name 0 65535).map fun n => .colorTemperature (.ofNat n.toNat)
  | .occupancy => (boolOf value name).map .occupancy
  | .battery => (pctOf value name).map .battery
  | .temperature => (intOf value name (-32768) 32767).map fun n => .temperature (.ofInt n)
  | .humidity => (pctOf value name).map .humidity
  | .illuminance => (intOf value name 0 (2^32-1)).map fun n => .illuminance (.ofNat n.toNat)
  | .power => (intOf value name 0 (2^32-1)).map fun n => .power (.ofNat n.toNat)
  | .contact => (boolOf value name).map .contact
  | .waterLeak => (boolOf value name).map .waterLeak
  | .smoke => (boolOf value name).map .smoke
  | .timeOfDay => (intOf value name 0 1439).map fun n => .timeOfDay (.ofNat n.toNat)
  | .sunUp => (boolOf value name).map .sunUp
  | .irTransmitter => .error ("'ir_transmitter' has no readable state; send a code with " ++
      "\x7b\"send_ir_code\": \"<base64>\"\x7d")

/-- The one shape of every failure. -/
def Response.error (status : ℕ) (code message : String) : Response :=
  ⟨status,.ofFields [("error",.ofFields [("code",.string code),("message",.string message)])]⟩

def malformed (message : String) : Response := .error 400 "malformed_body" message

def unsupported (message : String) : Response := .error 422 "unsupported_capability" message

/-- Neither a capability the device did not declare, nor one that is only reported. -/
def requireCapability (entry : DeviceEntry) (kind : CapabilityKind) : Except Response Unit :=
  if kind ∉ entry.capabilities then
    let declared := ", ".intercalate (entry.capabilities.map CapabilityKind.name)
    .error (unsupported ("device '" ++ entry.name ++ "' did not declare '" ++ kind.name ++
      "' (it has: " ++ (if declared = "" then "no capabilities" else declared) ++ ")"))
  else if kind.isWritable = false then
    .error (unsupported ("'" ++ kind.name ++ "' is read-only; it is reported by the device, not set"))
  else .ok ()

/-- A `set` names exactly one capability. -/
def singleSetting (fields : List (String × Json)) : Except Response (String × Json) :=
  match fields with
  | [field] => .ok field
  | [] => .error (malformed "'set' names no capability")
  | many => .error (malformed ("'set' names " ++ toString many.length ++ " capabilities (" ++
      ", ".intercalate (many.map Prod.fst) ++ "); set one at a time"))

def parseSet (entry : DeviceEntry) (value : Json) : Except Response Desired :=
  match value with
  | .object fields => do
    let field ← singleSetting fields
    match CapabilityKind.fromName field.1 with
    | none => .error (unsupported ("unknown capability '" ++ field.1 ++ "'"))
    | some kind =>
      requireCapability entry kind
      match stateFromJson kind field.2 with
      | .error message => .error (malformed message)
      | .ok state => .ok (.set state)
  | _ => .error (malformed ("'set' expects an object, e.g. " ++
      "\x7b\"set\": \x7b\"brightness\": 40\x7d\x7d"))

def parseToggle (entry : DeviceEntry) : Except Response Desired := do
  requireCapability entry .switch
  .ok .toggle

def parseAdjust (entry : DeviceEntry) (value : Json) : Except Response Desired := do
  requireCapability entry .brightness
  match value.asI64 with
  | none => .error (malformed "'adjust_brightness' expects an integer delta")
  | some n =>
    if -128 ≤ n ∧ n ≤ 127 then .ok (.adjustBrightness (.ofInt n))
    else .error (malformed ("'adjust_brightness' must be between -128 and 127, got " ++ toString n))

def parseSendIr (entry : DeviceEntry) (value : Json) : Except Response Desired := do
  requireCapability entry .irTransmitter
  match value with
  | .string code => .ok (.sendIr code)
  | _ => .error (malformed "'send_ir_code' expects a base64 string")

/-- One intent, of exactly one key. -/
def parseIntent (entry : DeviceEntry) (body : Except String Json) : Except Response Desired :=
  match body with
  | .error text => .error (malformed ("body is not valid JSON: " ++ text))
  | .ok (.object [(key,value)]) =>
    if key = "set" then parseSet entry value
    else if key = "toggle" then parseToggle entry
    else if key = "adjust_brightness" then parseAdjust entry value
    else if key = "send_ir_code" then parseSendIr entry value
    else .error (malformed ("unknown intent '" ++ key ++ "'; expected one of " ++
      "'set', 'toggle', 'adjust_brightness', 'send_ir_code'"))
  | .ok (.object []) => .error (malformed ("body has no intent; expected exactly one of " ++
      "'set', 'toggle', 'adjust_brightness', 'send_ir_code'"))
  | .ok (.object many) => .error (malformed ("body has " ++ toString many.length ++ " intents (" ++
      ", ".intercalate (many.map Prod.fst) ++ "); expected exactly one"))
  | .ok _ => .error (malformed ("body must be a JSON object, e.g. " ++
      "\x7b\"set\": \x7b\"switch\": true\x7d\x7d"))

end Domiform
