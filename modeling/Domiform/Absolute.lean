import Domiform.Canonical
import Domiform.Compile.Reading
import Domiform.RestApi.Directory
import Domiform.RestApi.Intent

/-! Absolute writes, from both sides. A client asks for a value in a JSON body, a config commands it
in a YAML node; each side checks the value by itself. -/
namespace Domiform
open Library Resolve

/-- A value that a scalar capability may be asked to take. -/
inductive Setting
  | int (n : ℤ)
  | bool (b : Bool)
  | rgb (r g b : ℤ)

namespace Setting

def toJson : Setting → Json
  | int n => .int n
  | bool b => .bool b
  | rgb r g b => .ofFields [("r",.int r),("g",.int g),("b",.int b)]

/-- An integer as the YAML parser reads it. -/
def integer (n : ℤ) : Value := .number (if 0 ≤ n then .posInt n.toNat else .negInt n)

def toYaml : Setting → Value
  | int n => integer n
  | bool b => .bool b
  | rgb r g b => .mapping [(.string "r",integer r),(.string "g",integer g),(.string "b",integer b)]

/-- The body `{"set": {capability: v}}`. -/
def intent (kind : CapabilityKind) (v : Setting) : Json :=
  .object [("set",.object [(kind.name,v.toJson)])]

/-- A verb with the device and one more field. -/
def verbNode (verb name key : String) (v : Setting) : Value :=
  .mapping [(.string verb,.mapping [(.string "device",.string name),(.string key,v.toYaml)])]

/-- The command of a config that sets a device to the value; a switch is only turned on or off. -/
def command (name : String) (kind : CapabilityKind) (v : Setting) : Option Value :=
  match kind with
  | .switch =>
    match v with
    | bool on => some (.mapping [(.string (if on then "turn_on" else "turn_off"),.string name)])
    | _ => none
  | .brightness => some (verbNode "set_brightness" name "value" v)
  | .color => some (verbNode "set_color" name "color" v)
  | .colorTemperature => some (verbNode "set_color_temperature" name "mireds" v)
  | _ => none

end Setting

/-- How far a level and a color temperature may go. -/
structure Bounds where
  level : ℤ
  low : ℤ
  high : ℤ

def Bounds.rest : Bounds := ⟨100,0,65535⟩

def Bounds.config : Bounds := ⟨255,100,1000⟩

/-- The state that a value stands for, when it is one of the capability and within the bounds. -/
inductive Setting.Means (bounds : Bounds) : CapabilityKind → Setting → CapabilityState → Prop
  | switch (on : Bool) : Means bounds .switch (.bool on) (.switch on)
  | brightness (n : ℤ) (low : 0 ≤ n) (high : n ≤ bounds.level) :
      Means bounds .brightness (.int n) (.brightness (.ofNat n.toNat))
  | color (r g b : ℤ) (red : 0 ≤ r ∧ r ≤ 255) (green : 0 ≤ g ∧ g ≤ 255) (blue : 0 ≤ b ∧ b ≤ 255) :
      Means bounds .color (.rgb r g b) (.color (.ofNat r.toNat) (.ofNat g.toNat) (.ofNat b.toNat))
  | colorTemperature (n : ℤ) (low : bounds.low ≤ n) (high : n ≤ bounds.high) :
      Means bounds .colorTemperature (.int n) (.colorTemperature (.ofNat n.toNat))

/-- The scalar capabilities that can be written. -/
def CapabilityKind.isScalar : CapabilityKind → Bool
  | switch | brightness | color | colorTemperature => true
  | _ => false

theorem Setting.Means.unique {b b' : Bounds} {kind : CapabilityKind} {v : Setting}
    {s s' : CapabilityState} (h : Means b kind v s) (h' : Means b' kind v s') : s = s' := by
  cases h <;> cases h' <;> rfl

section Rest
variable {kind : CapabilityKind} {v : Setting} {s : CapabilityState}

theorem channelOf_eq_ok {key : String} {fields : List (String × Json)} {n : ℤ}
    {x : UInt8} (h : fields.lookup key = some (.int n)) :
    channelOf fields key = .ok x ↔ (0 ≤ n ∧ n ≤ 255) ∧ x = .ofNat n.toNat := by
  simp only [channelOf,h,bind_ok_iff,intOf_eq_ok (show (-2^63 : ℤ) ≤ 0 by norm_num)
    (show (255 : ℤ) < 2^63 by norm_num),Json.int.injEq,Except.ok.injEq]
  constructor
  · rintro ⟨m,⟨rfl,hm⟩,rfl⟩
    exact ⟨hm,rfl⟩
  · rintro ⟨hm,rfl⟩
    exact ⟨n,⟨rfl,hm⟩,rfl⟩

theorem colorOf_rgb {r g b : ℤ} : colorOf (Setting.rgb r g b).toJson = .ok s ↔
    Setting.Means .rest .color (.rgb r g b) s := by
  have hf : (Setting.rgb r g b).toJson = .object [("b",.int b),("g",.int g),("r",.int r)] := by
    have hg : "g" < "r" := by decide
    have hb : "b" < "g" := by decide
    simp [Setting.toJson,Json.ofFields,Json.insertField,hg,hb]
  rw [hf]
  simp only [colorOf,bind_ok_iff]
  constructor
  · rintro ⟨x,hx,y,hy,z,hz,h⟩
    obtain ⟨hr,rfl⟩ := (channelOf_eq_ok rfl).mp hx
    obtain ⟨hg,rfl⟩ := (channelOf_eq_ok rfl).mp hy
    obtain ⟨hb,rfl⟩ := (channelOf_eq_ok rfl).mp hz
    cases h
    exact .color r g b hr hg hb
  · rintro ⟨⟩
    rename_i hr hg hb
    exact ⟨_,(channelOf_eq_ok rfl).mpr ⟨hr,rfl⟩,_,(channelOf_eq_ok rfl).mpr ⟨hg,rfl⟩,_,
      (channelOf_eq_ok rfl).mpr ⟨hb,rfl⟩,rfl⟩

/-- What the body of an intent is decoded to. -/
theorem stateFromJson_iff (scalar : kind.isScalar = true) :
    stateFromJson kind v.toJson = .ok s ↔ v.Means .rest kind s := by
  cases kind with
  | switch =>
    simp only [stateFromJson,map_eq_ok]
    constructor
    · rintro ⟨on,h,rfl⟩
      cases v with
      | bool b =>
        cases h
        exact .switch _
      | _ => cases h
    · rintro ⟨on⟩
      exact ⟨on,rfl,rfl⟩
  | brightness =>
    simp only [stateFromJson,map_eq_ok,pctOf,bind_ok_iff,Except.ok.injEq]
    constructor
    · rintro ⟨_,⟨n,h,rfl⟩,rfl⟩
      obtain ⟨hv,low,high⟩ := (intOf_eq_ok (by norm_num) (by norm_num)).mp h
      cases v <;> cases hv
      exact .brightness n low high
    · rintro ⟨⟩
      rename_i n low high
      exact ⟨_,⟨n,(intOf_eq_ok (by norm_num) (by norm_num)).mpr ⟨rfl,low,high⟩,rfl⟩,rfl⟩
  | color =>
    cases v with
    | rgb r g b => exact colorOf_rgb
    | int n | bool b =>
      constructor
      · rintro ⟨⟩
      · rintro ⟨⟩
  | colorTemperature =>
    simp only [stateFromJson,map_eq_ok]
    constructor
    · rintro ⟨n,h,rfl⟩
      obtain ⟨hv,low,high⟩ := (intOf_eq_ok (by norm_num) (by norm_num)).mp h
      cases v <;> cases hv
      exact .colorTemperature n low high
    · rintro ⟨⟩
      rename_i n low high
      exact ⟨n,(intOf_eq_ok (by norm_num) (by norm_num)).mpr ⟨rfl,low,high⟩,rfl⟩
  | _ => cases scalar

/-- An intent is accepted for exactly the values within the bounds of the API. -/
theorem parseIntent_iff {entry : DeviceEntry} (scalar : kind.isScalar = true)
    (declared : kind ∈ entry.capabilities) {desired : Desired} :
    parseIntent entry (.ok (v.intent kind)) = .ok desired ↔
      ∃ s, v.Means .rest kind s ∧ desired = .set s := by
  have hw : kind.isWritable = true := by
    cases kind <;> first | rfl | cases scalar
  have hc : requireCapability entry kind = .ok () := by
    rw [requireCapability,if_neg (not_not_intro declared),if_neg (by rw [hw]; rintro ⟨⟩)]
  simp only [← stateFromJson_iff scalar]
  cases hs : stateFromJson kind v.toJson with
  | error message =>
    have hp : parseIntent entry (.ok (v.intent kind)) = .error (malformed message) := by
      simp only [parseIntent,Setting.intent,parseSet,singleSetting,CapabilityKind.fromName_name,hc,
        hs,bind,Except.bind,if_true]
    simp [hp]
  | ok state =>
    have hp : parseIntent entry (.ok (v.intent kind)) = .ok (.set state) := by
      simp only [parseIntent,Setting.intent,parseSet,singleSetting,CapabilityKind.fromName_name,hc,
        hs,bind,Except.bind,if_true]
    simp [hp,eq_comm]

end Rest

section Yaml
variable {v : Setting}

theorem Setting.asInt_toYaml {low high n : ℤ} :
    v.toYaml.asInt low high = some n ↔ v = .int n ∧ low ≤ n ∧ n ≤ high := by
  cases v with
  | int m =>
    simp only [toYaml,integer,Setting.int.injEq]
    by_cases hm : 0 ≤ m
    · simp only [if_pos hm,Value.asInt,Value.untag,Int.toNat_of_nonneg hm,Option.ite_none_right_eq_some,
        Option.some.injEq]
      omega
    · simp only [if_neg hm,Value.asInt,Value.untag,Option.ite_none_right_eq_some,Option.some.injEq]
      omega
  | _ => simp [toYaml,Value.asInt,Value.untag]

theorem Setting.asU64_integer (n : ℤ) :
    (integer n).asU64 = if 0 ≤ n then some n.toNat else none := by
  by_cases hn : 0 ≤ n <;> simp [integer,Value.asU64,Value.untag,hn]

theorem Setting.optional_toYaml {α : Type} (decode : Value → Option α) :
    Value.optional decode (some v.toYaml) = (decode v.toYaml).map some := by
  cases v <;> rfl

/-- The fields of a verb have nothing to merge. -/
theorem Setting.applyMerge_fields {name key : String} (plain : key ≠ "<<") :
    (Value.mapping [(.string "device",.string name),(.string key,v.toYaml)]).applyMerge =
      .ok (.mapping [(.string "device",.string name),(.string key,v.toYaml)]) := by
  cases v <;> simp [Value.applyMerge,Value.depth,Value.depthEntries,Value.depthEntry,toYaml,integer,
    Value.applyMergeTo,Value.mergeEntries,Value.get,Value.isKey,plain,bind,Except.bind,pure,Except.pure]

end Yaml

/-- A body lowers to the value without an error. -/
def Lowerer.Compiles {α : Type} (m : Lower α) (a : α) : Prop :=
  m.value = some a ∧ Checked.Quiet Note.Rejects m

namespace Lowerer

theorem compiles_pure {α : Type} {a b : α} : Compiles (pure a : Lower α) b ↔ b = a := by
  constructor
  · rintro ⟨⟨⟩,-⟩
    rfl
  · rintro rfl
    exact ⟨rfl,List.forall_mem_nil _⟩

theorem not_compiles_error {α : Type} {code message context : String} {a : α} :
    ¬Compiles (error code message context) a := by
  rintro ⟨⟨⟩,-⟩

/-- A pass that decides by one value, and then goes on. -/
theorem compiles_option {α β : Type} {x : Option α} {code message context : String}
    {f : α → Lower β} {b : β} :
    Compiles ((match x with
      | some a => (pure a : Lower α)
      | none => error code message context) >>= f) b ↔ ∃ a, x = some a ∧ Compiles (f a) b := by
  cases x with
  | none =>
    constructor
    · exact fun h => absurd h not_compiles_error
    · rintro ⟨a,⟨⟩,-⟩
  | some a => simp [Checked.pure_bind]

theorem compiles_ite {α β : Type} {p : Prop} [Decidable p] {a : α} {code message context : String}
    {f : α → Lower β} {b : β} :
    Compiles ((if p then (pure a : Lower α) else error code message context) >>= f) b ↔
      p ∧ Compiles (f a) b := by
  by_cases hp : p
  · simp [hp,Checked.pure_bind]
  · simp only [hp,if_false,false_and,iff_false]
    exact not_compiles_error

/-- The device is known by the name, and declares the capability. -/
structure Offers (lw : Lowerer) (name : String) (id : DeviceId) (kind : CapabilityKind) : Prop where
  named : lw.deviceIndex.lookup name = some id
  placed : ∃ d, lw.Placed id d ∧ kind ∈ d.capabilities

variable {lw : Lowerer} {name context : String} {id : DeviceId} {kind : CapabilityKind}

theorem Offers.resolveDevice (h : lw.Offers name id kind) :
    lw.resolveDevice name context = pure id := by
  rw [Lowerer.resolveDevice,h.named]

theorem Offers.requireCap (h : lw.Offers name id kind) (indexed : lw.Indexed) {usage : String} :
    lw.requireCap id name kind usage context = pure () := by
  obtain ⟨d,⟨hd,-⟩,hk⟩ := h.placed
  have hc : id ≠ lw.clockDevice := by
    rw [indexed.clock]
    rintro rfl
    exact absurd (List.getElem?_eq_some_iff.mp hd).1 (lt_irrefl _)
  rw [Lowerer.requireCap,if_neg hc,hd]
  simp [hk]

/-- The payload of a verb with one more field is what it decodes to. -/
theorem payload_fields {α β : Type} {decode : Value → Option α} {v : Setting} {key node : String}
    (plain : key ≠ "<<") {f : α → Lower β} {b : β} :
    Compiles (lw.payload decode
      (.mapping [(.string "device",.string name),(.string key,v.toYaml)]) node context >>= f) b ↔
      ∃ a, decode (.mapping [(.string "device",.string name),(.string key,v.toYaml)]) = some a ∧
        Compiles (f a) b := by
  rw [payload,v.applyMerge_fields plain]
  exact compiles_option

/-- A turn on or off. -/
theorem compiles_switch (offers : lw.Offers name id .switch) (indexed : lw.Indexed) {on : Bool}
    {cmd : Command} :
    Compiles (lw.command context (.mapping [(.string (if on then "turn_on" else "turn_off"),
      .string name)])) cmd ↔ cmd = .setSwitch id on := by
  have h : lw.command context (.mapping [(.string (if on then "turn_on" else "turn_off"),
      .string name)]) = pure (.setSwitch id on) := by
    have hv : lw.command context (.mapping [(.string (if on then "turn_on" else "turn_off"),
        .string name)]) = lw.commandOf (if on then "turn_on" else "turn_off") (.string name) context :=
      rfl
    rw [hv]
    have hn (verb : String) : asName (.string name) verb context = pure name := rfl
    cases on with
    | true =>
      rw [commandOf,if_pos (.inl rfl),hn,Checked.pure_bind,offers.resolveDevice,Checked.pure_bind,
        offers.requireCap indexed]
      rfl
    | false =>
      rw [commandOf,if_pos (.inr rfl),hn,Checked.pure_bind,offers.resolveDevice,Checked.pure_bind,
        offers.requireCap indexed]
      rfl
  rw [h,compiles_pure]

/-- The two fields, and no other. -/
theorem fields_pair {names : List String} {key : String} {v : Setting} (device : "device" ∈ names)
    (known : key ∈ names) (other : key ≠ "device") :
    Value.fields names (.mapping [(.string "device",.string name),(.string key,v.toYaml)]) =
      some fun field =>
        if field = "device" then some (.string name) else if field = key then some v.toYaml
        else none := by
  have hl : (fun field => List.lookup field [("device",Value.string name),(key,v.toYaml)]) =
      fun field => if field = "device" then some (.string name)
        else if field = key then some v.toYaml else none := by
    funext field
    by_cases hd : field = "device"
    · simp [hd]
    · by_cases hk : field = key <;> simp [List.lookup_cons,beq_eq_decide,hd,hk,other]
  simp [Value.fields,Value.untag,Value.asStr,device,known,other.symm,hl]

theorem decode_brightness {v : Setting} : RawSetBrightness.decode
    (.mapping [(.string "device",.string name),(.string "value",v.toYaml)]) =
      v.toYaml.asU8.map fun x => ⟨name,x,none⟩ := by
  rw [RawSetBrightness.decode,fields_pair (by decide) (by decide) (by decide)]
  simp [Value.asStr,Value.untag,Value.optional,Option.map_eq_bind]

theorem decode_color {v : Setting} : RawSetColor.decode
    (.mapping [(.string "device",.string name),(.string "color",v.toYaml)]) =
      some ⟨name,v.toYaml,none⟩ := by
  rw [RawSetColor.decode,fields_pair (by decide) (by decide) (by decide)]
  simp [Value.asStr,Value.untag,Value.optional]

theorem decode_mireds {v : Setting} : RawSetColorTemperature.decode
    (.mapping [(.string "device",.string name),(.string "mireds",v.toYaml)]) =
      v.toYaml.asU16.map fun x => ⟨name,none,some x,none⟩ := by
  rw [RawSetColorTemperature.decode,fields_pair (by decide) (by decide) (by decide)]
  have hm : Value.optional Value.asU16 (some v.toYaml) = v.toYaml.asU16.map some :=
    v.optional_toYaml _
  have hn {α : Type} (decode : Value → Option α) : Value.optional decode none = some none := rfl
  cases hu : v.toYaml.asU16 <;> simp [Value.asStr,Value.untag,hm,hn,hu]

/-- Three channels, each of one byte. -/
theorem parseColor_rgb {r g b : ℤ} : parseColor (Setting.rgb r g b).toYaml context =
    if (0 ≤ r ∧ r ≤ 255) ∧ (0 ≤ g ∧ g ≤ 255) ∧ 0 ≤ b ∧ b ≤ 255 then
      pure (UInt8.ofNat r.toNat,UInt8.ofNat g.toNat,UInt8.ofNat b.toNat)
    else error "E_BAD_COLOR"
      "color must be a `#RRGGBB` hex string or `\x7b r, g, b \x7d` object with values 0–255"
        context := by
  have hr : (Value.get [(.string "r",Setting.integer r),(.string "g",Setting.integer g),
      (.string "b",Setting.integer b)] "r").bind Value.asU64 = (Setting.integer r).asU64 := rfl
  have hg : (Value.get [(.string "r",Setting.integer r),(.string "g",Setting.integer g),
      (.string "b",Setting.integer b)] "g").bind Value.asU64 = (Setting.integer g).asU64 := rfl
  have hb : (Value.get [(.string "r",Setting.integer r),(.string "g",Setting.integer g),
      (.string "b",Setting.integer b)] "b").bind Value.asU64 = (Setting.integer b).asU64 := rfl
  simp only [parseColor,Setting.toYaml,Value.asStr,Value.untag,hr,hg,hb,Setting.asU64_integer]
  by_cases red : 0 ≤ r <;> by_cases green : 0 ≤ g <;> by_cases blue : 0 ≤ b <;>
    simp [red,green,blue]

theorem command_verbNode {verb key : String} {v : Setting} :
    lw.command context (v.verbNode verb name key) = lw.commandOf verb
      (.mapping [(.string "device",.string name),(.string key,v.toYaml)]) context := rfl

section Verbs
variable {v : Setting} {cmd : Command} (indexed : lw.Indexed)
include indexed

theorem compiles_brightness (offers : lw.Offers name id .brightness) :
    Compiles (lw.command context (v.verbNode "set_brightness" name "value")) cmd ↔
      ∃ n, v = .int n ∧ 0 ≤ n ∧ n ≤ 255 ∧ cmd = .setBrightness id (.ofNat n.toNat) none := by
  rw [command_verbNode,commandOf,if_neg (by decide),if_neg (by decide),if_pos rfl,
    payload_fields (by decide)]
  simp only [decode_brightness,Value.asU8,Option.map_eq_some_iff,exists_exists_and_eq_and,
    v.asInt_toYaml,offers.resolveDevice,offers.requireCap indexed,parseTransition,Checked.pure_bind,
    compiles_pure]
  constructor
  · rintro ⟨n,⟨hv,low,high⟩,rfl⟩
    exact ⟨n,hv,low,high,rfl⟩
  · rintro ⟨n,hv,low,high,rfl⟩
    exact ⟨n,⟨hv,low,high⟩,rfl⟩

theorem compiles_mireds (offers : lw.Offers name id .colorTemperature) :
    Compiles (lw.command context (v.verbNode "set_color_temperature" name "mireds")) cmd ↔
      ∃ n, v = .int n ∧ 100 ≤ n ∧ n ≤ 1000 ∧
        cmd = .setColorTemperature id (.ofNat n.toNat) none := by
  rw [command_verbNode,commandOf,if_neg (by decide),if_neg (by decide),if_neg (by decide),
    if_neg (by decide),if_neg (by decide),if_neg (by decide),if_pos rfl,payload_fields (by decide)]
  simp only [decode_mireds,Value.asU16,Option.map_eq_some_iff,exists_exists_and_eq_and,
    v.asInt_toYaml,offers.resolveDevice,offers.requireCap indexed,parseColorTemperature,
    parseTransition,Checked.pure_bind,compiles_ite,compiles_pure]
  -- the field holds 16 bits, and the check is on what it holds
  have fits {n : ℤ} (hl : 0 ≤ n) (hh : n ≤ 65535) : (UInt16.ofNat n.toNat).toNat = n.toNat :=
    UInt16.toNat_ofNat_of_lt' (by simp [UInt16.size]; omega)
  constructor
  · rintro ⟨n,⟨hv,low,high⟩,range,rfl⟩
    rw [fits low high] at range
    exact ⟨n,hv,by omega,by omega,rfl⟩
  · rintro ⟨n,hv,low,high,rfl⟩
    refine ⟨n,⟨hv,by omega,by omega⟩,?_,rfl⟩
    rw [fits (by omega) (by omega)]
    omega

theorem compiles_color (offers : lw.Offers name id .color) :
    Compiles (lw.command context (v.verbNode "set_color" name "color")) cmd ↔
      ∃ r g b, v = .rgb r g b ∧ (0 ≤ r ∧ r ≤ 255) ∧ (0 ≤ g ∧ g ≤ 255) ∧ (0 ≤ b ∧ b ≤ 255) ∧
        cmd = .setColor id (.ofNat r.toNat) (.ofNat g.toNat) (.ofNat b.toNat) none := by
  rw [command_verbNode,commandOf,if_neg (by decide),if_neg (by decide),if_neg (by decide),
    if_neg (by decide),if_neg (by decide),if_pos rfl,payload_fields (by decide)]
  simp only [decode_color,Option.some.injEq,exists_eq_left',offers.resolveDevice,
    offers.requireCap indexed,parseTransition,Checked.pure_bind]
  cases v with
  | rgb r g b =>
    rw [parseColor_rgb,compiles_ite,compiles_pure]
    constructor
    · rintro ⟨⟨red,green,blue⟩,rfl⟩
      exact ⟨r,g,b,rfl,red,green,blue,rfl⟩
    · rintro ⟨_,_,_,⟨⟩,red,green,blue,rfl⟩
      exact ⟨⟨red,green,blue⟩,rfl⟩
  | int n | bool b =>
    constructor
    · exact fun h => absurd h not_compiles_error
    · rintro ⟨_,_,_,⟨⟩,-⟩

/-- A command compiles for exactly the values within the bounds of the config. -/
theorem command_iff (offers : lw.Offers name id kind) (scalar : kind.isScalar = true) :
    (∃ node, v.command name kind = some node ∧ Compiles (lw.command context node) cmd) ↔
      ∃ s, v.Means .config kind s ∧ Engine.commandForState id s = some cmd := by
  cases kind with
  | switch =>
    constructor
    · rintro ⟨node,hn,h⟩
      cases v with
      | bool on =>
        cases hn
        rw [compiles_switch offers indexed] at h
        exact ⟨_,.switch on,h ▸ rfl⟩
      | _ => cases hn
    · rintro ⟨_,⟨on⟩,h⟩
      cases h
      exact ⟨_,rfl,(compiles_switch offers indexed).mpr rfl⟩
  | brightness =>
    simp only [Setting.command,Option.some.injEq,exists_eq_left',compiles_brightness indexed offers]
    constructor
    · rintro ⟨n,rfl,low,high,rfl⟩
      exact ⟨_,.brightness n low high,rfl⟩
    · rintro ⟨_,hm,h⟩
      cases hm with
      | brightness n low high =>
        cases h
        exact ⟨n,rfl,low,high,rfl⟩
  | color =>
    simp only [Setting.command,Option.some.injEq,exists_eq_left',compiles_color indexed offers]
    constructor
    · rintro ⟨r,g,b,rfl,red,green,blue,rfl⟩
      exact ⟨_,.color r g b red green blue,rfl⟩
    · rintro ⟨_,hm,h⟩
      cases hm with
      | color r g b red green blue =>
        cases h
        exact ⟨r,g,b,rfl,red,green,blue,rfl⟩
  | colorTemperature =>
    simp only [Setting.command,Option.some.injEq,exists_eq_left',compiles_mireds indexed offers]
    constructor
    · rintro ⟨n,rfl,low,high,rfl⟩
      exact ⟨_,.colorTemperature n low high,rfl⟩
    · rintro ⟨_,hm,h⟩
      cases hm with
      | colorTemperature n low high =>
        cases h
        exact ⟨n,rfl,low,high,rfl⟩
  | _ => cases scalar

end Verbs
end Lowerer

namespace Engine
variable {A N : Type} {e : Engine A N} {cmd : Command}

/-- After an outcome, at most a retry is handed to the scheduler. -/
theorem dispatches_handleOutcome (outcome : DispatchOutcome) (attempt serial depth : ℕ) :
    e.dispatches <+: (e.handleOutcome outcome cmd attempt serial depth).dispatches := by
  cases outcome with
  | ok evs => exact List.prefix_rfl
  | transient reason =>
    simp only [handleOutcome]
    split_ifs
    · exact List.prefix_append _ _
    · exact List.prefix_rfl
  | permanent reason => exact List.prefix_rfl

/-- The command for a state is for the device, and is not changed by what is known of it. -/
theorem commandForState_fixed {device : DeviceId} {s : CapabilityState}
    (h : commandForState device s = some cmd) :
    cmd.targetDevice = some device ∧ e.resolveImplicitStateCommand cmd = cmd := by
  cases s <;> cases h <;> exact ⟨rfl,rfl⟩

variable [Adapter A] {e' : Engine A N} {fuel depth : ℕ}

/-- A command that nothing needs to be known for reaches the adapter of its device as it is. -/
theorem dispatchAt_hands {device : DeviceId} {idx : AdapterIdx}
    (target : cmd.targetDevice = some device) (fixed : e.resolveImplicitStateCommand cmd = cmd)
    (bound : e.deviceToAdapter.lookup device = some idx)
    (h : dispatchAt fuel cmd 1 none depth e = .ok e') :
    e.dispatches ++ [(e.now,idx,cmd)] <+: e'.dispatches := by
  cases fuel with
  | zero => cases h
  | succ fuel =>
    rw [dispatchAt_device (by rw [target]; rfl),fixed] at h
    have hr := dispatchDevice_routed h
    generalize hs : (issue (e.notify (.commandDispatched cmd depth)) cmd none).1 = serial at hr
    cases hr with
    | bound i outcome adapters hb handed =>
      rw [target] at hb
      cases (show some i = some idx from hb.symm.trans bound)
      refine List.IsPrefix.trans ?_ (dispatches_handleOutcome outcome 1 serial depth)
      exact List.prefix_rfl
    | unbound hb =>
      rw [target] at hb
      exact absurd (hb.symm.trans bound) (by rintro ⟨⟩)

/-- So it is when a client asks for it. -/
theorem requestChange_hands [NorthboundAdapter N] {device : DeviceId} {desired : Desired}
    {idx : AdapterIdx} (asked : commandForRequestedChange device desired = some cmd)
    (target : cmd.targetDevice = some device) (fixed : e.resolveImplicitStateCommand cmd = cmd)
    (bound : e.deviceToAdapter.lookup device = some idx)
    (h : e.requestChange fuel device desired depth = .ok e') :
    e.dispatches ++ [(e.now,idx,cmd)] <+: e'.dispatches := by
  rw [requestChange,asked] at h
  obtain ⟨e₁,h₁,h⟩ := bind_ok_iff.mp h
  cases h
  have hd : (e₁.refan device desired.kind).dispatches = e₁.dispatches := by
    unfold refan
    split <;> rfl
  rw [hd]
  exact dispatchAt_hands target fixed bound h₁

end Engine

theorem Setting.Means.exists_command {bounds : Bounds} {kind : CapabilityKind} {v : Setting}
    {s : CapabilityState} (h : v.Means bounds kind s) (device : DeviceId) :
    ∃ cmd, Engine.commandForState device s = some cmd := by
  cases h <;> exact ⟨_,rfl⟩

variable {lib : Libraries} {π : HashOrder} {raw : RawConfig} {cfg : CompiledConfig}

/-- A device of an accepted config is known to the lowering under its name. -/
theorem offers_of_accepted (accepted : resolve lib π raw = .ok cfg) {d : DeviceDef}
    (hd : d ∈ cfg.devices) {kind : CapabilityKind} (declared : kind ∈ d.capabilities) :
    (lowerer lib raw).Offers d.name d.id kind := by
  rw [(resolve_eq_ok accepted).2.2.1] at hd
  obtain ⟨named,placed⟩ := resolveDevices_named _ raw.devices.names_nodup hd
  exact ⟨named,d,⟨placed,rfl⟩,declared⟩

/-- A client and a config agree on what a switch and a color may be set to, and on every level but
those above 100 that fit a byte. A color temperature the config takes is one the API takes, which
goes by the width of the value. What both take is the same command for the adapter. -/
theorem absolute_writes_agree (accepted : resolve lib π raw = .ok cfg) {entry : DeviceEntry}
    (listed : entry ∈ (Directory.fromConfig cfg).devices) {kind : CapabilityKind}
    (scalar : kind.isScalar = true) (declared : kind ∈ entry.capabilities) (v : Setting)
    (context : String) :
    let requested desired := parseIntent entry (.ok (v.intent kind)) = .ok desired
    let compiled cmd := ∃ node, v.command entry.name kind = some node ∧
      Lowerer.Compiles ((lowerer lib raw).command context node) cmd
    (kind ≠ .colorTemperature →
      (kind = .brightness → ∀ n, v = .int n → n ≤ 100 ∨ 255 < n) →
        ((∃ desired, requested desired) ↔ ∃ cmd, compiled cmd)) ∧
    (kind = .colorTemperature →
      ((∃ desired, requested desired) ↔ ∃ n, v = .int n ∧ 0 ≤ n ∧ n ≤ 65535) ∧
      ((∃ cmd, compiled cmd) ↔ ∃ n, v = .int n ∧ 100 ≤ n ∧ n ≤ 1000)) ∧
    ∀ desired cmd, requested desired → compiled cmd →
      Engine.commandForRequestedChange entry.id desired = some cmd ∧
      ∀ {A N : Type} [Adapter A] [NorthboundAdapter N] (e e' : Engine A N) (fuel depth : ℕ)
        (idx : AdapterIdx), e.deviceToAdapter.lookup entry.id = some idx →
        Engine.dispatchAll fuel [cmd] depth e = .ok e' ∨
          e.requestChange fuel entry.id desired depth = .ok e' →
        e.dispatches ++ [(e.now,idx,cmd)] <+: e'.dispatches := by
  have writable : kind.isWritable = true := by
    cases kind <;> first | rfl | cases scalar
  obtain ⟨d,hd,rfl⟩ := Directory.mem_writable listed declared writable
  intro requested compiled
  have hr (desired : Desired) : requested desired ↔ ∃ s, v.Means .rest kind s ∧ desired = .set s :=
    parseIntent_iff scalar declared
  have hc (cmd : Command) : compiled cmd ↔
      ∃ s, v.Means .config kind s ∧ Engine.commandForState d.id s = some cmd :=
    Lowerer.command_iff (lowerer_indexed lib raw) (offers_of_accepted accepted hd declared) scalar
  have ask : (∃ desired, requested desired) ↔ ∃ s, v.Means .rest kind s := by
    simp only [hr]
    constructor
    · rintro ⟨_,s,hm,-⟩
      exact ⟨s,hm⟩
    · rintro ⟨s,hm⟩
      exact ⟨_,s,hm,rfl⟩
  have order : (∃ cmd, compiled cmd) ↔ ∃ s, v.Means .config kind s := by
    simp only [hc]
    constructor
    · rintro ⟨_,s,hm,-⟩
      exact ⟨s,hm⟩
    · rintro ⟨s,hm⟩
      obtain ⟨cmd,h⟩ := hm.exists_command d.id
      exact ⟨cmd,s,hm,h⟩
  refine ⟨fun other level => ?_,?_,?_⟩
  · rw [ask,order]
    refine exists_congr fun s => ?_
    constructor
    · rintro (_ | ⟨n,low,high⟩ | _ | _)
      · exact .switch _
      · have hh : n ≤ 100 := high
        exact .brightness n low (show n ≤ 255 by omega)
      · exact .color _ _ _ ‹_› ‹_› ‹_›
      · exact absurd rfl other
    · rintro (_ | ⟨n,low,high⟩ | _ | _)
      · exact .switch _
      · have hh : n ≤ 255 := high
        exact .brightness n low ((level rfl n rfl).resolve_right (not_lt.mpr hh))
      · exact .color _ _ _ ‹_› ‹_› ‹_›
      · exact absurd rfl other
  · rintro rfl
    rw [ask,order]
    constructor
    · constructor
      · rintro ⟨_,⟨⟩⟩
        exact ⟨_,rfl,‹_›,‹_›⟩
      · rintro ⟨n,rfl,low,high⟩
        exact ⟨_,.colorTemperature n low high⟩
    · constructor
      · rintro ⟨_,⟨⟩⟩
        exact ⟨_,rfl,‹_›,‹_›⟩
      · rintro ⟨n,rfl,low,high⟩
        exact ⟨_,.colorTemperature n low high⟩
  · intro desired cmd hdesired hcmd
    obtain ⟨s,hm,rfl⟩ := (hr desired).mp hdesired
    obtain ⟨s',hm',h⟩ := (hc cmd).mp hcmd
    cases hm.unique hm'
    have asked : Engine.commandForRequestedChange d.id (.set s) = some cmd := h
    refine ⟨asked,fun e e' fuel depth idx bound hrun => ?_⟩
    obtain ⟨target,fixed⟩ := Engine.commandForState_fixed (e := e) h
    rcases hrun with hrun | hrun
    · obtain ⟨e₁,h₁,h₂⟩ := bind_ok_iff.mp (show (Engine.dispatchAt fuel cmd 1 none depth e >>=
        fun e => .ok e) = .ok e' from hrun)
      cases h₂
      exact Engine.dispatchAt_hands target fixed bound h₁
    · exact Engine.requestChange_hands asked target fixed bound hrun

/-- A lamp with a level and a color temperature. -/
def warmConfig : RawConfig where
  system := .default
  adapters := .single "v" ⟨"virtual",.mapping []⟩
  devices := .single "lamp" ⟨"v",none,none,["brightness","color_temperature"],.empty,none,none,none⟩
  scenes := .empty
  schedules := .empty
  rules := .empty

/-- Both sides take a level of 40. -/
theorem level_is_taken : ∃ cfg, ∃ entry ∈ (Directory.fromConfig cfg).devices,
    resolve plainLibraries .identity warmConfig = .ok cfg ∧
      (∃ desired, parseIntent entry (.ok (Setting.intent .brightness (.int 40))) = .ok desired) ∧
      ∃ cmd node, Setting.command entry.name .brightness (.int 40) = some node ∧
        Lowerer.Compiles ((lowerer plainLibraries warmConfig).command "" node) cmd := by
  obtain ⟨cfg,h,entry,hm,hk,desired,hd⟩ : ∃ cfg,
      resolve plainLibraries .identity warmConfig = .ok cfg ∧
      ∃ entry ∈ (Directory.fromConfig cfg).devices, .brightness ∈ entry.capabilities ∧
        ∃ desired, parseIntent entry (.ok (Setting.intent .brightness (.int 40))) = .ok desired :=
    ⟨_,rfl,_,List.mem_cons_self,List.mem_cons_self,_,rfl⟩
  have hlevel : CapabilityKind.brightness = .brightness → ∀ n, Setting.int 40 = .int n →
      n ≤ 100 ∨ 255 < n := by
    rintro - n hn
    cases hn
    exact .inl (by norm_num)
  exact ⟨cfg,entry,hm,h,⟨desired,hd⟩,
    ((absolute_writes_agree h hm rfl hk (.int 40) "").1 (by decide) hlevel).mp ⟨desired,hd⟩⟩

/-- A color temperature of 50 mireds is one that the API takes, and the config does not. -/
theorem cold_light_is_refused_by_config : ∃ cfg, ∃ entry ∈ (Directory.fromConfig cfg).devices,
    resolve plainLibraries .identity warmConfig = .ok cfg ∧
      .colorTemperature ∈ entry.capabilities ∧
      (∃ desired, parseIntent entry (.ok (Setting.intent .colorTemperature (.int 50))) =
        .ok desired) ∧
      ¬∃ cmd node, Setting.command entry.name .colorTemperature (.int 50) = some node ∧
        Lowerer.Compiles ((lowerer plainLibraries warmConfig).command "" node) cmd := by
  refine ⟨_,_,List.mem_cons_self,rfl,List.mem_cons_of_mem _ List.mem_cons_self,⟨_,rfl⟩,?_⟩
  rintro ⟨cmd,node,hn,hv,-⟩
  cases hn
  cases hv

end Domiform
