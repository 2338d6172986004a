import Domiform.State

/-! JSON values, and capability states on the wire. Objects are sorted maps, as `serde_json` keeps
them; a number that is no integer is the float it was read as. -/
namespace Domiform

inductive Json
  | null
  | bool (b : Bool)
  | int (n : ℤ)
  | fraction (x : Float)
  | string (s : String)
  | array (items : List Json)
  | object (fields : List (String × Json))

namespace Json

/-- `Map::insert`: a key is written once, in its place. -/
def insertField (fields : List (String × Json)) (key : String) (value : Json) :
    List (String × Json) :=
  match fields with
  | [] => [(key,value)]
  | field :: rest =>
    if key < field.1 then (key,value) :: field :: rest
    else if key = field.1 then (key,value) :: rest
    else field :: insertField rest key value

/-- `json!({..})`. -/
def ofFields (fields : List (String × Json)) : Json :=
  .object (fields.foldl (fun fs f => insertField fs f.1 f.2) [])

def get : Json → String → Option Json
  | .object fields,key => fields.lookup key
  | _,_ => none

theorem lookup_cons (key k : String) (value : Json) (rest : List (String × Json)) :
    ((key,value) :: rest).lookup k = if k = key then some value else rest.lookup k := by
  by_cases h : k = key
  · simp [h]
  · have hb : (k == key) = false := by simpa using h
    rw [List.lookup_cons,hb,if_neg h]

theorem lookup_insertField (fields : List (String × Json)) (key k : String) (value : Json) :
    (insertField fields key value).lookup k = if k = key then some value else fields.lookup k := by
  induction fields with
  | nil => exact lookup_cons key k value []
  | cons field rest ih =>
    obtain ⟨key',v⟩ := field
    rw [insertField]
    by_cases hlt : key < key'
    · rw [if_pos hlt,lookup_cons]
    rw [if_neg hlt]
    by_cases heq : key = key'
    · rw [if_pos heq,lookup_cons,lookup_cons,heq]
      split_ifs <;> rfl
    · rw [if_neg heq,lookup_cons,ih,lookup_cons]
      split_ifs with h h' <;> first | rfl | exact absurd (h'.symm.trans h) heq

/-- The three channels of a color. -/
theorem get_rgb (r g b : Json) (key : String) : (ofFields [("r",r),("g",g),("b",b)]).get key =
    if key = "b" then some b else if key = "g" then some g else if key = "r" then some r
    else none := by
  simp only [ofFields,List.foldl_cons,List.foldl_nil,get,lookup_insertField,List.lookup_nil]

end Json

/-- `state_to_json`: canonical units, no conversion. -/
def stateToJson : CapabilityState → Json
  | .switch b | .occupancy b | .contact b | .waterLeak b | .smoke b | .sunUp b => .bool b
  | .brightness v | .battery v | .humidity v => .int v.toNat
  | .colorTemperature v | .timeOfDay v => .int v.toNat
  | .temperature v => .int v.toInt
  | .illuminance v | .power v => .int v.toNat
  | .color r g b => .ofFields [("r",.int r.toNat),("g",.int g.toNat),("b",.int b.toNat)]

theorem stateToJson_ne_null (s : CapabilityState) : stateToJson s ≠ .null := by
  cases s <;> rintro ⟨⟩

/-- A known value or an explicit `null`. -/
def valueOrNull (state : Option CapabilityState) : Json := (state.map stateToJson).getD .null

@[simp] theorem valueOrNull_eq_null {state : Option CapabilityState} :
    valueOrNull state = .null ↔ state = none := by
  cases state with
  | none => simp [valueOrNull]
  | some s => simp [valueOrNull,stateToJson_ne_null]

/-- Every declared capability, mapped to its value or `null`. -/
def capabilitiesObject (capabilities : List CapabilityKind)
    (lookup : CapabilityKind → Option CapabilityState) : Json :=
  .object (capabilities.foldl
    (fun out kind => Json.insertField out kind.name (valueOrNull (lookup kind))) [])

/-- The object has exactly the declared capabilities, each with its value. -/
theorem get_capabilitiesObject (capabilities : List CapabilityKind)
    (lookup : CapabilityKind → Option CapabilityState) (kind : CapabilityKind) :
    (capabilitiesObject capabilities lookup).get kind.name =
      if kind ∈ capabilities then some (valueOrNull (lookup kind)) else none := by
  rw [capabilitiesObject,Json.get]
  induction capabilities using List.reverseRecOn with
  | nil => rfl
  | append_singleton ks k ih =>
    rw [List.foldl_append,List.foldl_cons,List.foldl_nil,Json.lookup_insertField,ih]
    by_cases h : kind = k
    · simp [h]
    · simp [h,CapabilityKind.name_injective.ne h]

end Domiform
