import Domiform.Compile.Value

/-! The parse layer: what the config file holds, before any name is resolved. Rule nodes stay raw
values; the multi-field payloads are decoded from them by the lowering. -/
namespace Domiform

/-- A section of the file: a map by name, iterated in the order of the names. Positions in it become
ids of 32 bits. -/
structure NameMap (V : Type) where
  entries : List (String × V)
  sorted : entries.Pairwise fun a b => a.1 < b.1
  fits : entries.length < 2^32

namespace NameMap
variable {V : Type}

def empty : NameMap V := ⟨[],.nil,by simp⟩

def single (name : String) (v : V) : NameMap V := ⟨[(name,v)],by simp,by simp⟩

@[simp] theorem entries_single (name : String) (v : V) : (single name v).entries = [(name,v)] := rfl

def pair {a b : String} (order : a < b) (v w : V) : NameMap V :=
  ⟨[(a,v),(b,w)],List.pairwise_pair.mpr order,by simp⟩

def names (m : NameMap V) : List String := m.entries.map Prod.fst

theorem names_nodup (m : NameMap V) : m.names.Nodup := by
  have hp : m.names.Pairwise fun a b => a < b := List.pairwise_map.mpr m.sorted
  apply hp.imp
  rintro a b h rfl
  exact String.lt_irrefl a h

/-- A name has one position. -/
theorem position_unique (m : NameMap V) {i j : ℕ} {name : String} (hi : m.names[i]? = some name)
    (hj : m.names[j]? = some name) : i = j :=
  (List.getElem?_inj (List.getElem?_eq_some_iff.mp hi).1 m.names_nodup).mp (hi.trans hj.symm)

end NameMap

structure RawAdapter where
  kind : String
  /-- Every field besides `type`. -/
  config : Value

structure RawDevice where
  adapter : String
  address : Option String
  endpoint : Option UInt16
  capabilities : List String
  /-- Local name to raw protocol string. -/
  events : NameMap String
  manufacturer : Option String
  model : Option String
  room : Option String

structure RawSchedule where
  cron : Option String
  daily : Option String
  weekday : Option String
  weekend : Option String

structure RawRule where
  trigger : Value
  condition : Option Value
  forDuration : Option String
  commands : List Value

structure RawHealthcheck where
  host : String
  port : UInt16

structure RawRestApi where
  host : String
  port : UInt16
  token : Option String

structure RawSystem where
  name : Option String
  timezone : Option String
  latitude : Option Float
  longitude : Option Float
  runtimeStoragePath : Option String
  healthcheck : Option RawHealthcheck
  restApi : Option RawRestApi

def RawSystem.default : RawSystem := ⟨none,none,none,none,none,none,none⟩

structure RawConfig where
  system : RawSystem
  adapters : NameMap RawAdapter
  devices : NameMap RawDevice
  scenes : NameMap (List Value)
  schedules : NameMap RawSchedule
  rules : NameMap RawRule

section Payloads
open Value

structure RawSwitchIs where
  device : String
  on : Bool

def RawSwitchIs.decode (v : Value) : Option RawSwitchIs := do
  let f ← v.fields ["device","is_on"]
  let device ← (f "device").bind asStr
  let on ← (f "is_on").bind asBool
  some ⟨device,on⟩

structure RawOccupancyIs where
  device : String
  occupied : Bool

def RawOccupancyIs.decode (v : Value) : Option RawOccupancyIs := do
  let f ← v.fields ["device","occupied"]
  let device ← (f "device").bind asStr
  let occupied ← (f "occupied").bind asBool
  some ⟨device,occupied⟩

structure RawChanged where
  device : String
  capability : String
  target : Bool

def RawChanged.decode (v : Value) : Option RawChanged := do
  let f ← v.fields ["device","capability","to"]
  let device ← (f "device").bind asStr
  let capability ← (f "capability").bind asStr
  let target ← (f "to").bind asBool
  some ⟨device,capability,target⟩

structure RawCrosses where
  device : String
  capability : String
  above : Option ℤ
  below : Option ℤ

def RawCrosses.decode (v : Value) : Option RawCrosses := do
  let f ← v.fields ["device","capability","above","below"]
  let device ← (f "device").bind asStr
  let capability ← (f "capability").bind asStr
  let above ← optional asI64 (f "above")
  let below ← optional asI64 (f "below")
  some ⟨device,capability,above,below⟩

structure RawReports where
  device : String
  capability : String

def RawReports.decode (v : Value) : Option RawReports := do
  let f ← v.fields ["device","capability"]
  let device ← (f "device").bind asStr
  let capability ← (f "capability").bind asStr
  some ⟨device,capability⟩

structure RawCompare where
  device : String
  capability : String
  op : String
  value : ℤ

def RawCompare.decode (v : Value) : Option RawCompare := do
  let f ← v.fields ["device","capability","op","value"]
  let device ← (f "device").bind asStr
  let capability ← (f "capability").bind asStr
  let op ← (f "op").bind asStr
  let value ← (f "value").bind asI64
  some ⟨device,capability,op,value⟩

structure RawSetBrightness where
  device : String
  value : UInt8
  transition : Option String

def RawSetBrightness.decode (v : Value) : Option RawSetBrightness := do
  let f ← v.fields ["device","value","transition"]
  let device ← (f "device").bind asStr
  let value ← (f "value").bind asU8
  let transition ← optional asStr (f "transition")
  some ⟨device,value,transition⟩

/-- `RawDecreaseBrightness` and `RawIncreaseBrightness` alike. -/
structure RawStepBrightness where
  device : String
  value : UInt8

def RawStepBrightness.decode (v : Value) : Option RawStepBrightness := do
  let f ← v.fields ["device","by"]
  let device ← (f "device").bind asStr
  let value ← (f "by").bind asU8
  some ⟨device,value⟩

structure RawSetColor where
  device : String
  color : Value
  transition : Option String

def RawSetColor.decode (v : Value) : Option RawSetColor := do
  let f ← v.fields ["device","color","transition"]
  let device ← (f "device").bind asStr
  let color ← f "color"
  let transition ← optional asStr (f "transition")
  some ⟨device,color,transition⟩

structure RawColorIs where
  device : String
  color : Value

def RawColorIs.decode (v : Value) : Option RawColorIs := do
  let f ← v.fields ["device","color"]
  let device ← (f "device").bind asStr
  let color ← f "color"
  some ⟨device,color⟩

structure RawSetColorTemperature where
  device : String
  kelvin : Option UInt32
  mireds : Option UInt16
  transition : Option String

def RawSetColorTemperature.decode (v : Value) : Option RawSetColorTemperature := do
  let f ← v.fields ["device","kelvin","mireds","transition"]
  let device ← (f "device").bind asStr
  let kelvin ← optional asU32 (f "kelvin")
  let mireds ← optional asU16 (f "mireds")
  let transition ← optional asStr (f "transition")
  some ⟨device,kelvin,mireds,transition⟩

structure RawScheduleTimer where
  key : String
  after : String

def RawScheduleTimer.decode (v : Value) : Option RawScheduleTimer := do
  let f ← v.fields ["key","after"]
  let key ← (f "key").bind asStr
  let after ← (f "after").bind asStr
  some ⟨key,after⟩

structure RawSendIrCode where
  device : String
  code : String

def RawSendIrCode.decode (v : Value) : Option RawSendIrCode := do
  let f ← v.fields ["device","code"]
  let device ← (f "device").bind asStr
  let code ← (f "code").bind asStr
  some ⟨device,code⟩

end Payloads
end Domiform
