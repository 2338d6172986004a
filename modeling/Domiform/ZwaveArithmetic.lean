import Domiform.Adapters.ZwaveJs
import Domiform.Library.Machine

/-! The arithmetic of an inbound Z-Wave value, operation by operation, each in the width the code
computes it in. -/
namespace Domiform
open Library Machine

/-- `warm_cold_to_mireds`, step by step. -/
def Color.warmColdSteps (warm cold : ℕ) : Machine (Option UInt16) :=
  if warm = 0 ∧ cold = 0 then pure none
  else do
    let hundredfold ← wrap 64 (cold*100)
    let both ← wrap 64 (warm+cold)
    let coldPct ← wrap 32 (hundredfold/max both 1)
    let above ← wrap 32 ((coldKelvin-warmKelvin)*coldPct)
    let kelvin ← wrap 32 (warmKelvin+above/100)
    let mireds ← wrap 16 (min (1000000/max kelvin 1) 65535)
    pure (some (UInt16.ofNat mireds))

namespace Color
variable {warm cold : ℕ}

@[simp] theorem value_warmColdSteps :
    (warmColdSteps warm cold).value = warmColdToMireds warm cold := by
  unfold warmColdSteps warmColdToMireds
  split
  · rfl
  · simp only [value_bind,value_wrap,value_pure]
    congr 1
    apply UInt16.toNat_inj.mp
    simp

/-- The share of the cold channel is a percentage. -/
theorem coldPct_le (warm cold : ℕ) : cold*100/max (warm+cold) 1 ≤ 100 :=
  Nat.div_le_of_le_mul (by omega)

/-- A percentage of the way from the warm end to the cold one stays between them. -/
theorem kelvin_bounds {pct : ℕ} (h : pct ≤ 100) :
    2700 ≤ 2700+3800*pct/100 ∧ 2700+3800*pct/100 ≤ 6500 := by omega

theorem mireds_bounds {kelvin : ℕ} (h : 2700 ≤ kelvin ∧ kelvin ≤ 6500) :
    153 ≤ 1000000/kelvin ∧ 1000000/kelvin ≤ 370 :=
  ⟨(Nat.le_div_iff_mul_le (by omega)).mpr (by omega),
    Nat.le_of_lt_succ ((Nat.div_lt_iff_lt_mul (by omega)).mpr (by omega))⟩

/-- Nothing is cut off on the way exactly when the first product and the sum fit. -/
theorem exact_warmColdSteps :
    (warmColdSteps warm cold).exact = true ↔ cold*100 < 2^64 ∧ warm+cold < 2^64 := by
  unfold warmColdSteps
  split
  · rename_i h
    simp [h.1,h.2]
  · simp only [exact_bind,exact_wrap,exact_pure,value_wrap,Bool.and_eq_true,decide_eq_true_eq,
      and_true]
    constructor
    · rintro ⟨hc,hs,-⟩
      exact ⟨hc,hs⟩
    · rintro ⟨hc,hs⟩
      have hp := coldPct_le warm cold
      rw [Nat.mod_eq_of_lt hc,Nat.mod_eq_of_lt hs]
      generalize cold*100/max (warm+cold) 1 = pct at hp
      simp only [coldKelvin,warmKelvin]
      refine ⟨hc,hs,by omega,by omega,by omega,by omega⟩

/-- A mix whose sums fit is read as a temperature between the two ends. -/
theorem warmColdToMireds_bounds {mireds : UInt16} (hc : cold*100 < 2^64) (hs : warm+cold < 2^64)
    (h : warmColdToMireds warm cold = some mireds) : 153 ≤ mireds ∧ mireds ≤ 370 := by
  unfold warmColdToMireds at h
  split at h
  · cases h
  · have hp := coldPct_le warm cold
    rw [Nat.mod_eq_of_lt hc,Nat.mod_eq_of_lt hs] at h
    generalize cold*100/max (warm+cold) 1 = pct at hp h
    have hk := kelvin_bounds hp
    obtain ⟨lo,hi⟩ := mireds_bounds hk
    simp only [coldKelvin,warmKelvin,Nat.reduceSub,Option.some.injEq] at h
    rw [Nat.mod_eq_of_lt (a := pct) (by omega),Nat.mod_eq_of_lt (a := 3800*pct) (by omega),
      Nat.mod_eq_of_lt (a := 2700+3800*pct/100) (by omega),Nat.max_eq_left (by omega)] at h
    generalize 1000000/(2700+3800*pct/100) = m at lo hi h
    subst h
    rw [Nat.min_eq_left (by omega),UInt16.le_iff_toNat_le,UInt16.le_iff_toNat_le,
      UInt16.toNat_ofNat_of_lt' (by simp [UInt16.size]; omega)]
    exact ⟨lo,hi⟩

end Color

namespace ZwaveJs

/-- `zwave_to_pct`, step by step. -/
def zwaveToPctSteps (level : ℕ) : Machine UInt8 := do
  let hundredfold ← wrap 64 (min level 99*100)
  let rounded ← wrap 64 (hundredfold+49)
  let pct ← wrap 8 (rounded/99)
  pure (UInt8.ofNat pct)

/-- A number cast to a byte. -/
def byte (n : ℕ) : Machine UInt8 := UInt8.ofNat <$> wrap 8 n

/-- The three color channels, where all of them are bytes. -/
def colorSteps (value : Json) : Machine (Option (UInt8 × UInt8 × UInt8)) :=
  match (value.get "red").bind Json.asU64,(value.get "green").bind Json.asU64,
    (value.get "blue").bind Json.asU64 with
  | some r,some g,some b =>
    if r ≤ 255 ∧ g ≤ 255 ∧ b ≤ 255 then do
      let r ← byte r
      let g ← byte g
      let b ← byte b
      pure (some (r,g,b))
    else pure none
  | _,_,_ => pure none

/-- The channel levels of a tunable white. -/
def whiteChannels (value : Json) : Option (ℕ × ℕ) := do
  let warm ← (value.get "warmWhite").bind Json.asU64
  let cold ← (value.get "coldWhite").bind Json.asU64
  some (warm,cold)

def colorTempSteps (value : Json) : Machine (Option UInt16) :=
  match whiteChannels value with
  | some (warm,cold) => Color.warmColdSteps warm cold
  | none => pure none

/-- The readings of a `currentColor`: a color, or else a color temperature. -/
def colorStateSteps (value : Json) : Machine (List CapabilityState) :=
  colorSteps value >>= fun color =>
    match color with
    | some (r,g,b) => pure [.color r g b]
    | none => (fun mireds => (mireds.map CapabilityState.colorTemperature).toList) <$>
        colorTempSteps value

/-- `updateStates`, step by step. -/
def stateSteps (u : ValueUpdate) : Machine (List CapabilityState) :=
  if u.commandClass = ccMultilevelSwitch ∧ u.property = "currentValue" then
    match u.value.asU64 with
    | some level => (fun pct => [.brightness pct,.switch (decide (0 < level))]) <$>
        zwaveToPctSteps level
    | none => pure []
  else if u.commandClass = ccBattery ∧ u.property = "level" then
    match u.value.asU64 with
    | some pct => (fun pct => [.battery pct]) <$> byte (min pct 100)
    | none => pure []
  else if u.commandClass = ccColorSwitch ∧ u.property = "currentColor" then colorStateSteps u.value
  else pure (updateStates u)

/-- `update_to_events`, step by step. A press computes nothing. -/
def updateSteps (byNode : HashMap NodeAddress DeviceId)
    (actions : HashMap DeviceId (HashMap String ActionId)) (u : ValueUpdate) :
    Machine (List Event) :=
  match byNode.lookup (u.node,u.endpoint) with
  | none => pure []
  | some device =>
    if u.commandClass = ccCentralScene ∧ u.property = "scene" then
      pure (updateToEvents byNode actions u)
    else (fun states => states.map (Event.stateReported device)) <$> stateSteps u

variable {level n : ℕ}

@[simp] theorem value_zwaveToPctSteps : (zwaveToPctSteps level).value = zwaveToPct level := by
  have h : min level 99 ≤ 99 := Nat.min_le_right level 99
  simp only [zwaveToPctSteps,zwaveToPct,value_bind,value_wrap,value_pure]
  generalize min level 99 = m at h
  rw [Nat.mod_eq_of_lt (a := m*100) (by omega),Nat.mod_eq_of_lt (a := m*100+49) (by omega)]
  apply UInt8.toNat_inj.mp
  simp

/-- A level is cut to the scale before it is multiplied. -/
@[simp] theorem exact_zwaveToPctSteps : (zwaveToPctSteps level).exact = true := by
  have h : min level 99 ≤ 99 := Nat.min_le_right level 99
  simp only [zwaveToPctSteps,exact_bind,exact_wrap,exact_pure,value_wrap,Bool.and_eq_true,
    decide_eq_true_eq,and_true]
  generalize min level 99 = m at h
  rw [Nat.mod_eq_of_lt (a := m*100) (by omega),Nat.mod_eq_of_lt (a := m*100+49) (by omega)]
  refine ⟨by omega,by omega,by omega⟩

theorem zwaveToPct_le : zwaveToPct level ≤ 100 := by
  rw [UInt8.le_iff_toNat_le,zwaveToPct,UInt8.toNat_ofNat_of_lt' (by simp [UInt8.size]; omega)]
  change _ ≤ 100
  omega

@[simp] theorem value_byte : (byte n).value = UInt8.ofNat n := by
  simp [byte,← UInt8.toNat_inj]

@[simp] theorem exact_byte : (byte n).exact = true ↔ n ≤ 255 := by
  simp only [byte,exact_map,exact_wrap,decide_eq_true_eq]
  omega

section Values
variable {value : Json}

@[simp] theorem value_colorSteps : (colorSteps value).value = parseZwaveColor value := by
  unfold colorSteps parseZwaveColor
  cases (value.get "red").bind Json.asU64 <;> cases (value.get "green").bind Json.asU64 <;>
    cases (value.get "blue").bind Json.asU64 <;> try rfl
  dsimp only [Option.bind_eq_bind,Option.bind_some]
  split <;> simp

/-- A channel is cast only where it is a byte. -/
@[simp] theorem exact_colorSteps : (colorSteps value).exact = true := by
  unfold colorSteps
  split
  · split
    · rename_i h
      simp [h]
    · rfl
  · rfl

@[simp] theorem value_colorTempSteps :
    (colorTempSteps value).value = parseZwaveColorTemp value := by
  unfold colorTempSteps whiteChannels parseZwaveColorTemp
  cases (value.get "warmWhite").bind Json.asU64 <;>
    cases (value.get "coldWhite").bind Json.asU64 <;> try rfl
  exact Color.value_warmColdSteps

end Values

/-- The sums of a tunable-white value fit their widths. -/
def Fits (value : Json) : Prop := ∀ warm cold, whiteChannels value = some (warm,cold) →
  cold*100 < 2^64 ∧ warm+cold < 2^64

theorem exact_colorTempSteps {value : Json} :
    (colorTempSteps value).exact = true ↔ Fits value := by
  unfold colorTempSteps Fits
  split
  · rename_i warm cold h
    rw [Color.exact_warmColdSteps,h]
    constructor
    · rintro fits _ _ ⟨⟩
      exact fits
    · intro fits
      exact fits warm cold rfl
  · rename_i h
    simp [h]

theorem parseZwaveColorTemp_bounds {value : Json} {mireds : UInt16} (fits : Fits value)
    (h : parseZwaveColorTemp value = some mireds) : 153 ≤ mireds ∧ mireds ≤ 370 := by
  rw [← value_colorTempSteps,colorTempSteps] at h
  split at h
  · rename_i warm cold hw
    obtain ⟨hc,hs⟩ := fits warm cold hw
    rw [Color.value_warmColdSteps] at h
    exact Color.warmColdToMireds_bounds hc hs h
  · cases h

end ZwaveJs

open ZwaveJs in
/-- The sums of an update fit their widths, where it comes to any. -/
def ValueUpdate.Fits (u : ValueUpdate) : Prop :=
  u.commandClass = ccColorSwitch → u.property = "currentColor" → parseZwaveColor u.value = none →
    ZwaveJs.Fits u.value

/-- A reading lies on its scale. -/
def CapabilityState.InBand : CapabilityState → Prop
  | .brightness pct => pct ≤ 100
  | .battery pct => pct ≤ 100
  | .colorTemperature mireds => 153 ≤ mireds ∧ mireds ≤ 370
  | _ => True

namespace ZwaveJs
variable {u : ValueUpdate}

theorem exact_colorStateSteps {value : Json} : (colorStateSteps value).exact = true ↔
    (parseZwaveColor value = none → Fits value) := by
  rw [colorStateSteps,exact_bind,exact_colorSteps,value_colorSteps,Bool.true_and]
  cases parseZwaveColor value with
  | none => simp [exact_colorTempSteps]
  | some color => simp

@[simp] theorem value_stateSteps : (stateSteps u).value = updateStates u := by
  unfold stateSteps
  split_ifs with hm hb hc
  · rw [updateStates,if_neg (by simp [hm.1,ccBinarySwitch,ccMultilevelSwitch]),if_pos hm]
    cases u.value.asU64 <;> simp
  · rw [updateStates,if_neg (by simp [hb.1,ccBinarySwitch,ccBattery]),if_neg hm,if_pos hb]
    cases u.value.asU64 <;> simp
  · rw [updateStates,if_neg (by simp [hc.1,ccBinarySwitch,ccColorSwitch]),if_neg hm,if_neg hb,
      if_pos hc,colorStateSteps,value_bind,value_colorSteps]
    cases parseZwaveColor u.value <;> simp
  · rfl

theorem exact_stateSteps : (stateSteps u).exact = true ↔ u.Fits := by
  unfold stateSteps ValueUpdate.Fits
  split_ifs with hm hb hc
  · have other : u.commandClass ≠ ccColorSwitch := by simp [hm.1,ccColorSwitch,ccMultilevelSwitch]
    cases u.value.asU64 <;> simp [other]
  · have other : u.commandClass ≠ ccColorSwitch := by simp [hb.1,ccColorSwitch,ccBattery]
    cases u.value.asU64 <;> simp [other]
  · simp [exact_colorStateSteps,hc]
  · simp only [exact_pure,true_iff]
    intro hclass hproperty
    exact absurd ⟨hclass,hproperty⟩ hc

/-- A percentage is cut to its scale; a temperature is on it if the sums fit. -/
theorem updateStates_inBand {s : CapabilityState} (fits : u.Fits) (hs : s ∈ updateStates u) :
    s.InBand := by
  unfold updateStates at hs
  split_ifs at hs with hb hm hl hc hn
  · obtain ⟨on,-,rfl⟩ := Option.map_eq_some_iff.mp (Option.mem_toList.mp hs)
    trivial
  · cases h : u.value.asU64 with
    | none => simp [h] at hs
    | some level =>
      simp only [h,List.mem_cons,List.not_mem_nil,or_false] at hs
      rcases hs with rfl | rfl
      · exact zwaveToPct_le
      · trivial
  · obtain ⟨pct,-,rfl⟩ := Option.map_eq_some_iff.mp (Option.mem_toList.mp hs)
    have hp : min pct 100 ≤ 100 := Nat.min_le_right pct 100
    change UInt8.ofNat (min pct 100) ≤ 100
    rw [UInt8.le_iff_toNat_le,UInt8.toNat_ofNat_of_lt' (by simp [UInt8.size])]
    exact hp
  · cases h : parseZwaveColor u.value with
    | none =>
      rw [h] at hs
      obtain ⟨mireds,hm,rfl⟩ := Option.map_eq_some_iff.mp (Option.mem_toList.mp hs)
      exact parseZwaveColorTemp_bounds (fits hc.1 hc.2 h) hm
    | some color =>
      rw [h] at hs
      rw [List.mem_singleton.mp hs]
      trivial
  · split at hs
    · rw [List.mem_singleton.mp hs]
      trivial
    · rw [List.mem_singleton.mp hs]
      trivial
    · rw [List.mem_singleton.mp hs]
      trivial
    · cases hs
  · cases hs

variable {byNode : HashMap NodeAddress DeviceId}
  {actions : HashMap DeviceId (HashMap String ActionId)}

/-- Cut off where they do not fit, the steps compute what the adapter reports. -/
theorem value_updateSteps :
    (updateSteps byNode actions u).value = updateToEvents byNode actions u := by
  unfold updateSteps updateToEvents
  cases byNode.lookup (u.node,u.endpoint) with
  | none => rfl
  | some device =>
    dsimp only
    split_ifs <;> simp

theorem exact_updateSteps : (updateSteps byNode actions u).exact = true ↔
    ∀ device, byNode.lookup (u.node,u.endpoint) = some device → u.Fits := by
  unfold updateSteps
  cases byNode.lookup (u.node,u.endpoint) with
  | none => simp
  | some device =>
    dsimp only
    split_ifs with hs
    · have other : u.commandClass ≠ ccColorSwitch := by simp [hs.1,ccColorSwitch,ccCentralScene]
      simp [ValueUpdate.Fits,other]
    · simp [exact_stateSteps]

/-- Whatever is reported comes from a device of the table. -/
theorem stateReported_mem_updateToEvents {device : DeviceId} {s : CapabilityState}
    (h : .stateReported device s ∈ updateToEvents byNode actions u) :
    byNode.lookup (u.node,u.endpoint) = some device ∧ s ∈ updateStates u := by
  unfold updateToEvents at h
  split at h
  · cases h
  · rename_i device' hd
    split_ifs at h
    · obtain ⟨raw,-,hr⟩ := Option.bind_eq_some_iff.mp (Option.mem_toList.mp h)
      obtain ⟨action,-,⟨⟩⟩ := Option.map_eq_some_iff.mp hr
    · cases h
    · obtain ⟨s',hs,⟨⟩⟩ := List.mem_map.mp h
      exact ⟨hd,hs⟩

end ZwaveJs

open ZwaveJs

/-- An update is computed without overflow and reported in band exactly when the channels of a tunable
white, where it comes to them, add up within 64 bits. -/
theorem zwave_inbound_safe_iff (byNode : HashMap NodeAddress DeviceId)
    (actions : HashMap DeviceId (HashMap String ActionId)) (u : ValueUpdate) :
    ((updateSteps byNode actions u).value = updateToEvents byNode actions u ∧
      (updateSteps byNode actions u).exact = true ∧
      ∀ device s, .stateReported device s ∈ updateToEvents byNode actions u → s.InBand) ↔
    ∀ device, byNode.lookup (u.node,u.endpoint) = some device → u.Fits := by
  rw [exact_updateSteps]
  constructor
  · exact fun h => h.2.1
  · intro fits
    refine ⟨value_updateSteps,fits,?_⟩
    intro device s h
    obtain ⟨hd,hs⟩ := stateReported_mem_updateToEvents h
    exact updateStates_inBand (fits device hd) hs

/-- The levels of a tunable white, as wide as a number gets. -/
def glare : ValueUpdate :=
  ⟨5,0,ccColorSwitch,"currentColor",none,
    .ofFields [("warmWhite",.int (2^64-1)),("coldWhite",.int 2)],false⟩

/-- The sum of the levels comes out as 1, and the lamp as colder than the scale. -/
theorem glare_out_of_band :
    (updateSteps ((∅ : HashMap NodeAddress DeviceId).insert (5,0) ⟨0⟩) ∅ glare).exact = false ∧
      updateToEvents ((∅ : HashMap NodeAddress DeviceId).insert (5,0) ⟨0⟩) ∅ glare =
        [.stateReported ⟨0⟩ (.colorTemperature 97)] ∧
      ¬(CapabilityState.colorTemperature 97).InBand := by
  refine ⟨rfl,rfl,?_⟩
  rintro ⟨h,-⟩
  exact absurd h (by decide)

end Domiform
