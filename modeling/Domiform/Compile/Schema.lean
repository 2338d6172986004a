import Domiform.Compile.Value
import Domiform.Library.Pattern

/-! The published schema of rule nodes, `schema/domiform.schema.json`, as what it admits. -/
namespace Domiform
open Library Computability

/-- A schema, as the values that validate against it. -/
abbrev Schema := Value → Prop

/-- The integer a number is. Whether the text of a float stands for one is for the validator to say. -/
def Number.whole (float : String → Option ℤ) : Number → Option ℤ
  | posInt n => some n
  | negInt n => some n
  | .float text => float text

namespace Schema

section Keywords

/-- `"type": "string"`. -/
def string : Schema := fun v => ∃ s, v = .string s

/-- A string that matches a pattern. -/
def pattern (p : Language Char) : Schema := fun v => ∃ s, v = .string s ∧ s.toList ∈ p

/-- `"enum"`, of strings. -/
def enum (texts : List String) : Schema := fun v => ∃ s ∈ texts, v = .string s

/-- `"type": "boolean"`. -/
def boolean : Schema := fun v => ∃ b, v = .bool b

/-- `"type": "integer"`. -/
def integer (float : String → Option ℤ) : Schema :=
  fun v => ∃ n i, v = .number n ∧ n.whole float = some i

/-- An integer from `minimum` to `maximum`. -/
def integerIn (float : String → Option ℤ) (minimum maximum : ℤ) : Schema :=
  fun v => ∃ n i, v = .number n ∧ n.whole float = some i ∧ minimum ≤ i ∧ i ≤ maximum

/-- `"type": "array"`. -/
def array (items : Schema) : Schema := fun v => ∃ vs, v = .sequence vs ∧ ∀ v ∈ vs, items v

/-- An object with `"additionalProperties": false`. -/
def object (required : List String) (properties : List (String × Schema)) : Schema :=
  fun v => ∃ entries, v = .mapping entries ∧
    (∀ e ∈ entries, ∃ name, e.1 = .string name ∧ (properties.lookup name).isSome) ∧
    (∀ name schema value, properties.lookup name = some schema →
      Value.get entries name = some value → schema value) ∧
    ∀ name ∈ required, (Value.get entries name).isSome

/-- An object of exactly one property: `minProperties` and `maxProperties` are 1, and no others than
these are allowed. -/
def node (properties : List (String × Schema)) : Schema :=
  fun v => ∃ verb payload schema, v = .mapping [(.string verb,payload)] ∧
    properties.lookup verb = some schema ∧ schema payload

/-- `"oneOf"`, of two. -/
def oneOf (a b : Schema) : Schema := fun v => Xor (a v) (b v)

end Keywords

section Patterns

/-- `[0-9A-Fa-f]`. -/
def isHex (c : Char) : Bool := c.isDigit || (decide ('A' ≤ c) && decide (c ≤ 'F')) ||
  (decide ('a' ≤ c) && decide (c ≤ 'f'))

/-- `^[^.]+\.[^.]+$`. -/
def eventPattern : Language Char := letters (· != '.') * (lit ['.'] * letters (· != '.'))

/-- `^[0-9]+(ms|s|m|h)$`. -/
def durationPattern : Language Char :=
  letters Char.isDigit * (lit ['m','s'] + lit ['s'] + lit ['m'] + lit ['h'])

/-- `^#[0-9A-Fa-f]{6}$`. -/
def hexPattern : Language Char := lit ['#'] * letter isHex ^ 6

/-- `[01]?[0-9]|2[0-3]`. -/
def hourPattern : Language Char :=
  (1 + letter fun c => decide ('0' ≤ c) && decide (c ≤ '1')) * letter Char.isDigit +
    lit ['2'] * letter fun c => decide ('0' ≤ c) && decide (c ≤ '3')

/-- `^([01]?[0-9]|2[0-3]):[0-5][0-9]$`. -/
def timePattern : Language Char :=
  hourPattern * (lit [':'] *
    ((letter fun c => decide ('0' ≤ c) && decide (c ≤ '5')) * letter Char.isDigit))

end Patterns

section Definitions
variable (float : String → Option ℤ)

/-- `$defs/duration`. -/
def duration : Schema := pattern durationPattern

/-- `$defs/timeOfDay`. -/
def timeOfDay : Schema := pattern timePattern

/-- `$defs/color`. -/
def color : Schema :=
  oneOf (pattern hexPattern) (object ["r","g","b"] [("r",integerIn float 0 255),
    ("g",integerIn float 0 255),("b",integerIn float 0 255)])

section Payloads

def changed : Schema := object ["device","capability","to"]
  [("device",string),("capability",string),("to",boolean)]

def crosses : Schema := object ["device","capability"]
  [("device",string),("capability",string),("above",integer float),("below",integer float)]

def reports : Schema := object ["device","capability"] [("device",string),("capability",string)]

def switch : Schema := object ["device","is_on"] [("device",string),("is_on",boolean)]

def occupancyIs : Schema := object ["device","occupied"] [("device",string),("occupied",boolean)]

def compare : Schema := object ["device","capability","op","value"]
  [("device",string),("capability",string),("op",enum ["<","<=","==","!=",">=",">"]),
   ("value",integer float)]

def colorIs : Schema := object ["device","color"] [("device",string),("color",color float)]

def setBrightness : Schema := object ["device","value"]
  [("device",string),("value",integerIn float 0 100),("transition",duration)]

/-- `decrease_brightness` and `increase_brightness` alike. -/
def stepBrightness : Schema := object ["device","by"]
  [("device",string),("by",integerIn float 0 100)]

def setColor : Schema := object ["device","color"]
  [("device",string),("color",color float),("transition",duration)]

def setColorTemperature : Schema := object ["device"]
  [("device",string),("kelvin",integerIn float 1000 10000),("mireds",integerIn float 100 1000),
   ("transition",duration)]

def scheduleTimer : Schema := object ["key","after"] [("key",string),("after",duration)]

def sendIrCode : Schema := object ["device","code"] [("device",string),("code",string)]

end Payloads

def triggers : List (String × Schema) :=
  [("event",pattern eventPattern),("changed",changed),("crosses",crosses float),
   ("reports",reports),("timer",string),("schedule",string),("command_failed",string)]

/-- `$defs/trigger`. -/
def trigger : Schema := node (triggers float)

/-- The conditions that hold no other condition. -/
def leaves : List (String × Schema) :=
  [("sun_up",boolean),("switch",switch),("occupancy_is",occupancyIs),("compare",compare float),
   ("color_is",colorIs float),("time_after",timeOfDay),("time_before",timeOfDay)]

mutual
/-- `$defs/condition`. -/
def condition (v : Value) : Prop :=
  match v with
  | .mapping [(.string verb,payload)] =>
    if verb = "all" ∨ verb = "any" then conditions payload
    else if verb = "not" then condition payload
    else ∃ schema, (leaves float).lookup verb = some schema ∧ schema payload
  | _ => False
termination_by structural v
/-- An array of conditions. -/
def conditions (v : Value) : Prop :=
  match v with
  | .sequence items => eachCondition items
  | _ => False
termination_by structural v
def eachCondition (items : List Value) : Prop :=
  match items with
  | [] => True
  | v :: vs => condition v ∧ eachCondition vs
termination_by structural items
end

def commands : List (String × Schema) :=
  [("turn_on",string),("turn_off",string),("toggle",string),
   ("set_brightness",setBrightness float),("decrease_brightness",stepBrightness float),
   ("increase_brightness",stepBrightness float),("set_color",setColor float),
   ("set_color_temperature",setColorTemperature float),("activate_scene",string),
   ("schedule_timer",scheduleTimer),("cancel_timer",string),("send_ir_code",sendIrCode)]

/-- `$defs/command`. -/
def command : Schema := node (commands float)

theorem eachCondition_iff {items : List Value} :
    eachCondition float items ↔ ∀ v ∈ items, condition float v := by
  induction items with
  | nil => simp [eachCondition]
  | cons v vs ih => rw [eachCondition,ih,List.forall_mem_cons]

theorem conditions_iff {v : Value} : conditions float v ↔ array (condition float) v := by
  unfold array
  cases v with
  | sequence items =>
    rw [conditions,eachCondition_iff]
    constructor
    · exact fun h => ⟨items,rfl,h⟩
    · rintro ⟨_,⟨⟩,h⟩
      exact h
  | _ => exact ⟨False.elim,by rintro ⟨_,⟨⟩,_⟩⟩

/-- `$defs/condition` as it stands in the file, with itself for every reference to it. -/
theorem condition_iff {v : Value} : condition float v ↔
    node ([("all",array (condition float)),("any",array (condition float)),
      ("not",condition float)] ++ leaves float) v := by
  constructor
  · intro h
    unfold condition at h
    split at h
    · rename_i verb payload
      split_ifs at h with hl hn
      · rw [conditions_iff] at h
        rcases hl with rfl | rfl
        · exact ⟨_,payload,_,rfl,rfl,h⟩
        · exact ⟨_,payload,_,rfl,rfl,h⟩
      · subst hn
        exact ⟨_,payload,_,rfl,rfl,h⟩
      · obtain ⟨schema,hs,h⟩ := h
        rw [not_or] at hl
        refine ⟨verb,payload,schema,rfl,?_,h⟩
        simpa [List.lookup_cons,beq_false_of_ne hl.1,beq_false_of_ne hl.2,beq_false_of_ne hn] using hs
    · exact h.elim
  · rintro ⟨verb,payload,schema,rfl,hs,h⟩
    rw [condition]
    by_cases hl : verb = "all" ∨ verb = "any"
    · rw [if_pos hl,conditions_iff]
      rcases hl with rfl | rfl
      · cases hs
        exact h
      · cases hs
        exact h
    · by_cases hn : verb = "not"
      · subst hn
        cases hs
        rw [if_neg hl,if_pos rfl]
        exact h
      · rw [if_neg hl,if_neg hn]
        rw [not_or] at hl
        refine ⟨schema,?_,h⟩
        simpa [List.lookup_cons,beq_false_of_ne hl.1,beq_false_of_ne hl.2,beq_false_of_ne hn] using hs

end Definitions
end Schema
end Domiform
