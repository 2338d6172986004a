import Domiform.Compile.WellFormed
import Domiform.RestApi.Intent

/-! Values and intents on the wire: what a value is written as is what it is read from, and an intent
that is let in asks the engine for something. -/
namespace Domiform
open Library

/-- A value within the range of its unit. -/
def CapabilityState.Canonical : CapabilityState → Prop
  | brightness v | battery v | humidity v => v.toNat ≤ 100
  | timeOfDay minute => minute.toNat < 1440
  | _ => True

/-- Objects are compared as maps. -/
def Json.Same (v w : Json) : Prop :=
  v = w ∨ ∃ fields fields', v = .object fields ∧ w = .object fields' ∧
    ∀ key, fields.lookup key = fields'.lookup key

theorem Json.same_bool {b : Bool} {v : Json} : (Json.bool b).Same v ↔ v = .bool b := by
  simp [Same,eq_comm]

theorem Json.same_int {n : ℤ} {v : Json} : (Json.int n).Same v ↔ v = .int n := by
  simp [Same,eq_comm]

theorem Json.same_object {fields : List (String × Json)} {v : Json} :
    (Json.object fields).Same v ↔
      ∃ fields', v = .object fields' ∧ ∀ key, fields.lookup key = fields'.lookup key := by
  constructor
  · rintro (rfl | ⟨_,fields',⟨⟩,rfl,h⟩)
    · exact ⟨fields,rfl,fun _ => rfl⟩
    · exact ⟨fields',rfl,h⟩
  · rintro ⟨fields',rfl,h⟩
    exact .inr ⟨fields,fields',rfl,rfl,h⟩

/-! ### Scalars -/

section Scalars
variable {value : Json} {name : String} {high : ℤ}

theorem boolOf_eq_ok {b : Bool} : boolOf value name = .ok b ↔ value = .bool b := by
  cases value <;> simp [boolOf,Json.asBool]

/-- An integer that is decoded without loss within its bounds. -/
theorem intOf_decode {α : Type} (code : α → ℤ) {decode : ℤ → α} {low : ℤ} (hl : -2^63 ≤ low)
    (hh : high < 2^63) (left : ∀ a, decode (code a) = a)
    (right : ∀ n, low ≤ n → n ≤ high → code (decode n) = n) {a : α} :
    (intOf value name low high).map decode = .ok a ↔
      value = .int (code a) ∧ low ≤ code a ∧ code a ≤ high := by
  rw [map_eq_ok]
  constructor
  · rintro ⟨n,hn,rfl⟩
    obtain ⟨rfl,h⟩ := (intOf_eq_ok hl hh).mp hn
    rw [right n h.1 h.2]
    exact ⟨rfl,h⟩
  · rintro ⟨rfl,h⟩
    exact ⟨code a,(intOf_eq_ok hl hh).mpr ⟨rfl,h⟩,left a⟩

/-- An unsigned width, through its natural number. -/
theorem intOf_unsigned {α : Type} {toNat : α → ℕ} {ofNat : ℕ → α} (left : ∀ a, ofNat (toNat a) = a)
    (right : ∀ n : ℕ, (n : ℤ) ≤ high → toNat (ofNat n) = n) (hh : high < 2^63) {a : α} :
    (intOf value name 0 high).map (fun n => ofNat n.toNat) = .ok a ↔
      value = .int (toNat a) ∧ (toNat a : ℤ) ≤ high := by
  rw [intOf_decode (fun a => (toNat a : ℤ)) (by norm_num) hh (fun a => left a)]
  · simp
  · intro n low hn
    rw [right n.toNat (by omega)]
    exact Int.toNat_of_nonneg low

theorem intOf_u8 {x : UInt8} (hh : high < 2^8) :
    (intOf value name 0 high).map (fun n => UInt8.ofNat n.toNat) = .ok x ↔
      value = .int x.toNat ∧ (x.toNat : ℤ) ≤ high := by
  apply intOf_unsigned (fun _ => UInt8.ofNat_toNat) _ (by omega)
  intro n hn
  exact UInt8.toNat_ofNat_of_lt' (by simp [UInt8.size]; omega)

theorem intOf_u16 {x : UInt16} (hh : high < 2^16) :
    (intOf value name 0 high).map (fun n => UInt16.ofNat n.toNat) = .ok x ↔
      value = .int x.toNat ∧ (x.toNat : ℤ) ≤ high := by
  apply intOf_unsigned (fun _ => UInt16.ofNat_toNat) _ (by omega)
  intro n hn
  exact UInt16.toNat_ofNat_of_lt' (by simp [UInt16.size]; omega)

theorem intOf_u32 {x : UInt32} (hh : high < 2^32) :
    (intOf value name 0 high).map (fun n => UInt32.ofNat n.toNat) = .ok x ↔
      value = .int x.toNat ∧ (x.toNat : ℤ) ≤ high := by
  apply intOf_unsigned (fun _ => UInt32.ofNat_toNat) _ (by omega)
  intro n hn
  exact UInt32.toNat_ofNat_of_lt' (by simp [UInt32.size]; omega)

theorem intOf_i16 {x : Int16} :
    (intOf value name (-32768) 32767).map Int16.ofInt = .ok x ↔ value = .int x.toInt := by
  rw [intOf_decode Int16.toInt (by norm_num) (by norm_num) Int16.ofInt_toInt]
  · have low := x.le_toInt
    have high := x.toInt_lt
    refine and_iff_left_of_imp fun _ => ?_
    omega
  · intro n low hn
    exact Int16.toInt_ofInt_of_le (by omega) (by omega)

theorem pctOf_eq_ok {x : UInt8} : pctOf value name = .ok x ↔ value = .int x.toNat ∧ x.toNat ≤ 100 := by
  have hp : pctOf value name = (intOf value name 0 100).map fun n => UInt8.ofNat n.toNat := by
    rw [pctOf]
    cases intOf value name 0 100 <;> rfl
  rw [hp,intOf_u8 (by norm_num)]
  norm_cast

end Scalars

/-! ### Colors -/

section Colors
variable {fields : List (String × Json)} {key : String} {v : Json} {r g b : UInt8}

theorem channelOf_iff {x : UInt8} :
    channelOf fields key = .ok x ↔ fields.lookup key = some (.int x.toNat) := by
  have hx : (x.toNat : ℤ) ≤ 255 := by
    have := x.toNat_lt
    omega
  rw [channelOf]
  cases fields.lookup key with
  | none => simp
  | some value =>
    have hv := @intOf_u8 value ("color." ++ key) 255 x (by norm_num)
    rw [map_eq_ok] at hv
    simp only [bind_ok_iff,Except.ok.injEq,hv,Option.some.injEq,and_iff_left hx]

/-- The three channels and no other key, under the order of a map. -/
theorem same_color : (stateToJson (.color r g b)).Same v ↔ ∃ fields, v = .object fields ∧
    fields.lookup "r" = some (.int r.toNat) ∧ fields.lookup "g" = some (.int g.toNat) ∧
      fields.lookup "b" = some (.int b.toNat) ∧
      ∀ key, key ≠ "r" ∧ key ≠ "g" ∧ key ≠ "b" → fields.lookup key = none := by
  have lookup := Json.get_rgb (.int r.toNat) (.int g.toNat) (.int b.toNat)
  rw [stateToJson,Json.ofFields,Json.same_object]
  constructor
  · rintro ⟨fields,rfl,h⟩
    refine ⟨fields,rfl,?_,?_,?_,?_⟩
    · exact (h "r").symm.trans (lookup "r")
    · exact (h "g").symm.trans (lookup "g")
    · exact (h "b").symm.trans (lookup "b")
    · rintro key ⟨hr,hg,hb⟩
      apply (h key).symm.trans
      apply (lookup key).trans
      rw [if_neg hb,if_neg hg,if_neg hr]
  · rintro ⟨fields,rfl,hr,hg,hb,others⟩
    refine ⟨fields,rfl,fun key => (lookup key).trans ?_⟩
    split_ifs with kb kg kr
    · rw [kb,hb]
    · rw [kg,hg]
    · rw [kr,hr]
    · exact (others key ⟨kr,kg,kb⟩).symm

theorem find_stray_eq_none : fields.find? (fun field =>
      field.1 ≠ "r" ∧ field.1 ≠ "g" ∧ field.1 ≠ "b") = none ↔
    ∀ key, key ≠ "r" ∧ key ≠ "g" ∧ key ≠ "b" → fields.lookup key = none := by
  simp only [List.find?_eq_none,decide_eq_true_eq,List.lookup_eq_none_iff,bne_iff_ne]
  constructor
  · rintro h key hkey field hf rfl
    exact h field hf hkey
  · intro h field hf hkey
    exact h field.1 hkey field hf rfl

theorem colorOf_iff {s : CapabilityState} :
    colorOf v = .ok s ↔ ∃ r g b, s = .color r g b ∧ (stateToJson s).Same v := by
  cases v with
  | object fields =>
    simp only [colorOf,bind_ok_iff,channelOf_iff]
    constructor
    · rintro ⟨r,hr,g,hg,b,hb,h⟩
      cases hf : fields.find? fun field => field.1 ≠ "r" ∧ field.1 ≠ "g" ∧ field.1 ≠ "b" with
      | some extra =>
        rw [hf] at h
        cases h
      | none =>
        rw [hf] at h
        cases h
        exact ⟨r,g,b,rfl,same_color.mpr ⟨fields,rfl,hr,hg,hb,find_stray_eq_none.mp hf⟩⟩
    · rintro ⟨r,g,b,rfl,h⟩
      obtain ⟨_,⟨⟩,hr,hg,hb,others⟩ := same_color.mp h
      refine ⟨r,hr,g,hg,b,hb,?_⟩
      rw [find_stray_eq_none.mpr others]
  | _ =>
    constructor
    · rintro ⟨⟩
    · rintro ⟨r,g,b,rfl,h⟩
      obtain ⟨_,⟨⟩,-⟩ := same_color.mp h

end Colors

/-! ### States -/

section States
variable {kind : CapabilityKind} {s : CapabilityState} {v : Json} {name : String}

/-- A kind of one constructor, with what is known of its argument. -/
theorem made_iff {α : Type} {x : Except String α} {make : α → CapabilityState} {P : α → Prop}
    (decoded : ∀ a, x = .ok a ↔ P a) (made : ∀ a, (make a).kind = kind)
    (only : ∀ s : CapabilityState, s.kind = kind → ∃ a, make a = s)
    (spec : ∀ a, P a ↔ (make a).Canonical ∧ (stateToJson (make a)).Same v) :
    x.map make = .ok s ↔ s.kind = kind ∧ s.Canonical ∧ (stateToJson s).Same v := by
  rw [map_eq_ok]
  constructor
  · rintro ⟨a,ha,rfl⟩
    exact ⟨made a,(spec a).mp ((decoded a).mp ha)⟩
  · rintro ⟨hk,hs⟩
    obtain ⟨a,rfl⟩ := only s hk
    exact ⟨a,(decoded a).mpr ((spec a).mpr hs),rfl⟩

theorem map_map_eq_ok {α β γ : Type} {x : Except String α} {f : α → β} {g : β → γ} {c : γ} :
    x.map (fun a => g (f a)) = .ok c ↔ (x.map f).map g = .ok c := by
  cases x <;> rfl

/-- What a kind decodes is exactly what its canonical states are written as. -/
theorem stateFromJson_eq_ok : stateFromJson kind v = .ok s ↔
    s.kind = kind ∧ s.Canonical ∧ (stateToJson s).Same v := by
  cases kind with
  | switch | occupancy | contact | waterLeak | smoke | sunUp =>
    refine made_iff (fun b => boolOf_eq_ok) (fun _ => rfl) (fun s h => ?_) fun b => ?_
    · cases s <;> cases h
      exact ⟨_,rfl⟩
    · simp [CapabilityState.Canonical,stateToJson,Json.same_bool]
  | brightness | battery | humidity =>
    refine made_iff (fun x => pctOf_eq_ok) (fun _ => rfl) (fun s h => ?_) fun x => ?_
    · cases s <;> cases h
      exact ⟨_,rfl⟩
    · simp [CapabilityState.Canonical,stateToJson,Json.same_int,and_comm]
  | color =>
    refine colorOf_iff.trans ⟨?_,?_⟩
    · rintro ⟨r,g,b,rfl,h⟩
      exact ⟨rfl,trivial,h⟩
    · rintro ⟨hk,-,h⟩
      cases s <;> cases hk
      exact ⟨_,_,_,rfl,h⟩
  | colorTemperature =>
    refine map_map_eq_ok.trans (made_iff (fun x => intOf_u16 (by norm_num)) (fun _ => rfl)
      (fun s h => ?_) fun x => ?_)
    · cases s <;> cases h
      exact ⟨_,rfl⟩
    · have := x.toNat_lt
      simp only [CapabilityState.Canonical,stateToJson,Json.same_int,true_and,and_iff_left_iff_imp]
      omega
  | timeOfDay =>
    refine map_map_eq_ok.trans (made_iff (fun x => intOf_u16 (by norm_num)) (fun _ => rfl)
      (fun s h => ?_) fun x => ?_)
    · cases s <;> cases h
      exact ⟨_,rfl⟩
    · have hx : (x.toNat : ℤ) ≤ 1439 ↔ x.toNat < 1440 := by omega
      simp only [CapabilityState.Canonical,stateToJson,Json.same_int,hx,and_comm]
  | illuminance | power =>
    refine map_map_eq_ok.trans (made_iff (fun x => intOf_u32 (by norm_num)) (fun _ => rfl)
      (fun s h => ?_) fun x => ?_)
    · cases s <;> cases h
      exact ⟨_,rfl⟩
    · have := x.toNat_lt
      simp only [CapabilityState.Canonical,stateToJson,Json.same_int,true_and,and_iff_left_iff_imp]
      omega
  | temperature =>
    refine map_map_eq_ok.trans
      (made_iff (fun x => intOf_i16) (fun _ => rfl) (fun s h => ?_) fun x => ?_)
    · cases s <;> cases h
      exact ⟨_,rfl⟩
    · simp [CapabilityState.Canonical,stateToJson,Json.same_int]
  | irTransmitter =>
    constructor
    · rintro ⟨⟩
    · rintro ⟨hk,-⟩
      cases s <;> cases hk

/-- Writing and reading are inverse to each other on the canonical states. -/
theorem stateJson_bijective :
    (∀ s : CapabilityState, s.Canonical → stateFromJson s.kind (stateToJson s) = .ok s) ∧
    ∀ (kind : CapabilityKind) (v : Json) (s : CapabilityState), stateFromJson kind v = .ok s →
      s.kind = kind ∧ s.Canonical ∧ (stateToJson s).Same v := by
  constructor
  · intro s hs
    exact stateFromJson_eq_ok.mpr ⟨rfl,hs,.inl rfl⟩
  · intro kind v s h
    exact stateFromJson_eq_ok.mp h

end States

/-! ### Intents -/

section Intents
variable {entry : DeviceEntry} {desired : Desired}

theorem requireCapability_eq_ok {kind : CapabilityKind} : requireCapability entry kind = .ok () ↔
    kind ∈ entry.capabilities ∧ kind.isWritable = true := by
  rw [requireCapability]
  by_cases declared : kind ∈ entry.capabilities
  · rw [if_neg (not_not_intro declared)]
    cases kind.isWritable <;> simp [declared]
  · simp [declared]

theorem parseSet_asks {value : Json} (h : parseSet entry value = .ok desired) :
    ∃ s, desired = .set s ∧ s.Canonical ∧ requireCapability entry s.kind = .ok () := by
  cases value with
  | object fields =>
    rw [parseSet,bind_ok_iff] at h
    obtain ⟨field,-,h⟩ := h
    cases hk : CapabilityKind.fromName field.1 with
    | none =>
      rw [hk] at h
      cases h
    | some kind =>
      rw [hk] at h
      obtain ⟨⟨⟩,required,h⟩ := bind_ok_iff.mp h
      cases hs : stateFromJson kind field.2 with
      | error message =>
        rw [hs] at h
        cases h
      | ok s =>
        rw [hs] at h
        cases h
        obtain ⟨rfl,canonical,-⟩ := stateFromJson_eq_ok.mp hs
        exact ⟨s,rfl,canonical,required⟩
  | _ => cases h

theorem parseAdjust_asks {value : Json} (h : parseAdjust entry value = .ok desired) :
    ∃ delta, desired = .adjustBrightness delta ∧ requireCapability entry .brightness = .ok () := by
  obtain ⟨⟨⟩,required,h⟩ := bind_ok_iff.mp h
  cases hv : value.asI64 with
  | none =>
    rw [hv] at h
    cases h
  | some n =>
    simp only [hv] at h
    split_ifs at h
    cases h
    exact ⟨_,rfl,required⟩

theorem parseSendIr_asks {value : Json} (h : parseSendIr entry value = .ok desired) :
    ∃ code, desired = .sendIr code ∧ requireCapability entry .irTransmitter = .ok () := by
  obtain ⟨⟨⟩,required,h⟩ := bind_ok_iff.mp h
  cases value with
  | string code =>
    cases h
    exact ⟨code,rfl,required⟩
  | _ => cases h

/-- An intent that is let in is about a capability that the device declares and that can be written,
and asks for nothing out of range. -/
theorem parseIntent_asks {body : Except String Json} (h : parseIntent entry body = .ok desired) :
    (desired.kind ∈ entry.capabilities ∧ desired.kind.isWritable = true) ∧
      ∀ s, desired = .set s → s.Canonical := by
  rw [← requireCapability_eq_ok]
  cases body with
  | error text => cases h
  | ok body =>
    cases body with
    | object fields =>
      obtain _ | ⟨⟨key,value⟩,_ | _⟩ := fields
      · cases h
      · simp only [parseIntent] at h
        split_ifs at h
        · obtain ⟨s,rfl,canonical,required⟩ := parseSet_asks h
          exact ⟨required,by rintro _ ⟨⟩; exact canonical⟩
        · obtain ⟨⟨⟩,required,h⟩ := bind_ok_iff.mp h
          cases h
          exact ⟨required,by rintro _ ⟨⟩⟩
        · obtain ⟨delta,rfl,required⟩ := parseAdjust_asks h
          exact ⟨required,by rintro _ ⟨⟩⟩
        · obtain ⟨code,rfl,required⟩ := parseSendIr_asks h
          exact ⟨required,by rintro _ ⟨⟩⟩
      · cases h
    | _ => cases h

theorem commandForState_needs {device : DeviceId} {s : CapabilityState}
    (writable : s.kind.isWritable = true) : ∃ cmd, Engine.commandForState device s = some cmd ∧
      cmd.needs = some (device,s.kind) := by
  cases s with
  | switch | brightness | color | colorTemperature => exact ⟨_,rfl,rfl⟩
  | _ => cases writable

/-- The engine has a command for all that can be written, but for a step of zero. -/
theorem commandForRequestedChange_needs {device : DeviceId}
    (writable : desired.kind.isWritable = true) (moves : desired ≠ .adjustBrightness 0) :
    ∃ cmd, Engine.commandForRequestedChange device desired = some cmd ∧
      cmd.needs = some (device,desired.kind) := by
  cases desired with
  | set s => exact commandForState_needs writable
  | toggle => exact ⟨_,rfl,rfl⟩
  | sendIr code => exact ⟨_,rfl,rfl⟩
  | adjustBrightness delta =>
    have nonzero : delta.toInt ≠ 0 := by
      intro h
      exact moves (congrArg _ (Int8.toInt_inj.mp h))
    rw [Engine.commandForRequestedChange]
    split_ifs with up down
    · exact ⟨_,rfl,rfl⟩
    · exact ⟨_,rfl,rfl⟩
    · omega

/-- The magnitude fits the byte it is sent in, also that of the lowest delta. -/
theorem toNat_natAbs (delta : Int8) :
    (UInt8.ofNat delta.toInt.natAbs).toNat = delta.toInt.natAbs := by
  have low := delta.le_toInt
  have high := delta.toInt_lt
  exact UInt8.toNat_ofNat_of_lt' (by simp [UInt8.size]; omega)

/-- No intent is let in and then asks for nothing, a step of zero apart; and a step is asked for with
its magnitude and its sign. -/
theorem parseIntent_never_silent :
    (∀ (entry : DeviceEntry) (body : Except String Json) (desired : Desired),
      parseIntent entry body = .ok desired → desired ≠ .adjustBrightness 0 →
        ∃ cmd kind, Engine.commandForRequestedChange entry.id desired = some cmd ∧
          cmd.needs = some (entry.id,kind) ∧ kind ∈ entry.capabilities ∧
          kind.isWritable = true) ∧
    ∀ (entry : DeviceEntry) (n : ℤ), .brightness ∈ entry.capabilities → -128 ≤ n → n ≤ 127 →
      ∃ (delta : Int8) (amount : UInt8),
        parseIntent entry (.ok (.object [("adjust_brightness",.int n)])) =
          .ok (.adjustBrightness delta) ∧ amount.toNat = n.natAbs ∧
        Engine.commandForRequestedChange entry.id (.adjustBrightness delta) =
          if 0 < n then some (.increaseBrightness entry.id amount)
          else if n < 0 then some (.decreaseBrightness entry.id amount) else none := by
  constructor
  · intro entry body desired h moves
    obtain ⟨⟨declared,writable⟩,-⟩ := parseIntent_asks h
    obtain ⟨cmd,hcmd,needs⟩ := commandForRequestedChange_needs writable moves
    exact ⟨cmd,desired.kind,hcmd,needs,declared,writable⟩
  · intro entry n declared low high
    have hn : (Int8.ofInt n).toInt = n := Int8.toInt_ofInt_of_le (by omega) (by omega)
    have required : requireCapability entry .brightness = .ok () :=
      requireCapability_eq_ok.mpr ⟨declared,rfl⟩
    have hv : (Json.int n).asI64 = some n := if_pos (by omega)
    refine ⟨.ofInt n,.ofNat n.natAbs,?_,?_,?_⟩
    · have adjusted : parseAdjust entry (.int n) = .ok (.adjustBrightness (.ofInt n)) := by
        rw [parseAdjust,required]
        simp only [hv,bind,Except.bind,if_pos (And.intro low high)]
      exact adjusted
    · rw [← hn,toNat_natAbs]
    · rw [Engine.commandForRequestedChange,hn]

end Intents
end Domiform
