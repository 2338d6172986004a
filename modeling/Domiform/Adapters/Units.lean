import Domiform.RestApi.Json
import Domiform.Compile.Text

/-! What the protocol adapters share: reading JSON values, percentages on the 254-step scale, and
the color conversions. Floats are the IEEE ones; integer sums wrap as in a release build. -/
namespace Domiform

namespace Json

def asStr : Json → Option String
  | string s => some s
  | _ => none

def asBool : Json → Option Bool
  | bool b => some b
  | _ => none

def asU64 : Json → Option ℕ
  | int n => if 0 ≤ n ∧ n < 2^64 then some n.toNat else none
  | _ => none

def asF64 : Json → Option Float
  | int n => some (Float.ofInt n)
  | fraction x => some x
  | _ => none

end Json

/-- `eq_ignore_ascii_case`. -/
def Text.eqIgnoreAsciiCase (s t : String) : Bool :=
  s.toList.map Char.toLower == t.toList.map Char.toLower

/-- A percentage on the 0..=254 scale, rounded to nearest; more than 100 counts as 100. -/
def pctToLevel (pct : UInt8) : ℕ := (min pct.toNat 100*254+50)/100

/-- Inverse of `pctToLevel`. -/
def levelToPct (raw : ℕ) : UInt8 := UInt8.ofNat ((min raw 254*100+127)/254)

theorem levelToPct_le (raw : ℕ) : levelToPct raw ≤ 100 := by
  have h : (min raw 254*100+127)/254 ≤ 100 := by omega
  rw [UInt8.le_iff_toNat_le,levelToPct,UInt8.toNat_ofNat_of_lt' (by simp [UInt8.size]; omega)]
  exact h

/-- The level of a percentage reads back as the percentage. -/
theorem levelToPct_pctToLevel {pct : UInt8} (h : pct ≤ 100) : levelToPct (pctToLevel pct) = pct := by
  have hp : pct.toNat ≤ 100 := UInt8.le_iff_toNat_le.mp h
  apply UInt8.toNat_inj.mp
  rw [levelToPct,pctToLevel,UInt8.toNat_ofNat_of_lt' (by simp [UInt8.size]; omega)]
  omega

namespace Color

/-- The warm end of the tunable-white range. -/
def warmKelvin : ℕ := 2700

/-- The cold end of the tunable-white range. -/
def coldKelvin : ℕ := 6500

/-- `mireds_to_warm_cold`: a white point as a mix of two channels, clamped to the range. -/
def miredsToWarmCold (mireds : UInt16) : UInt8 × UInt8 :=
  let kelvin := min (max (1000000/max mireds.toNat 1) warmKelvin) coldKelvin
  let coldPct := (kelvin-warmKelvin)*100/(coldKelvin-warmKelvin)
  (UInt8.ofNat (255*(100-coldPct)/100),UInt8.ofNat (255*coldPct/100))

/-- `warm_cold_to_mireds`, of two `u64` channel levels. -/
def warmColdToMireds (warm cold : ℕ) : Option UInt16 :=
  if warm = 0 ∧ cold = 0 then none
  else
    let coldPct := cold*100 % 2^64/max ((warm+cold) % 2^64) 1 % 2^32
    let kelvin := (warmKelvin+(coldKelvin-warmKelvin)*coldPct % 2^32/100) % 2^32
    some (UInt16.ofNat (min (1000000/max kelvin 1) 65535))

/-- Rust's `%` on floats whose quotient is small. -/
def fmod (x y : Float32) : Float32 :=
  let quotient := x/y
  x-y*(if quotient < 0 then quotient.ceil else quotient.floor)

def clamp (x low high : Float32) : Float32 := if x < low then low else if high < x then high else x

/-- `rgb_to_hue_sat_254`: the brightness of the color is discarded. -/
def rgbToHueSat254 (r g b : UInt8) : UInt8 × UInt8 :=
  let rf := r.toFloat32/255
  let gf := g.toFloat32/255
  let bf := b.toFloat32/255
  let high := max (max rf gf) bf
  let low := min (min rf gf) bf
  let delta := high-low
  let degrees :=
    if delta == 0 then 0
    else if high == rf then 60*fmod ((gf-bf)/delta) 6
    else if high == gf then 60*((bf-rf)/delta+2)
    else 60*((rf-gf)/delta+4)
  let degrees := if degrees < 0 then degrees+360 else degrees
  let saturation := if high == 0 then 0 else delta/high
  ((clamp (degrees/360*254).round 0 254).toUInt8,(clamp (saturation*254).round 0 254).toUInt8)

/-- `hue_sat_254_to_rgb`: at full brightness. -/
def hueSat254ToRgb (hue sat : UInt8) : UInt8 × UInt8 × UInt8 :=
  let h := hue.toFloat32/254*360
  let s := sat.toFloat32/254
  let v : Float32 := 1
  let c := v*s
  let x := c*(1-(fmod (h/60) 2-1).abs)
  let m := v-c
  let (rp,gp,bp) : Float32 × Float32 × Float32 :=
    if h < 60 then (c,x,0)
    else if h < 120 then (x,c,0)
    else if h < 180 then (0,c,x)
    else if h < 240 then (0,x,c)
    else if h < 300 then (x,0,c)
    else (c,0,x)
  let toByte (f : Float32) : UInt8 := (clamp ((f+m)*255).round 0 255).toUInt8
  (toByte rp,toByte gp,toByte bp)

end Color
end Domiform
