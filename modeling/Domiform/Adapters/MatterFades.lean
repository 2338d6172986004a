import Domiform.Adapters.Matter
import Domiform.Compile.Lower

/-! Fades on the way to Matter. A transition in milliseconds is sent as tenths of a second in 16
bits; what does not fit is cut, so that a long fade may come out as a short one. -/
namespace Domiform
open Matter

/-- A command that can fade, but for its transition. -/
inductive Fade
  | brightness (device : DeviceId) (value : UInt8)
  | color (device : DeviceId) (r g b : UInt8)
  | colorTemperature (device : DeviceId) (mireds : UInt16)

def Fade.command (fade : Fade) (transition : Millis) : Command :=
  match fade with
  | brightness device value => .setBrightness device value (some transition)
  | color device r g b => .setColor device r g b (some transition)
  | colorTemperature device mireds => .setColorTemperature device mireds (some transition)

/-- The fade time of a cluster command. -/
def ClusterCommand.fadeTime : ClusterCommand → Option UInt16
  | moveToLevel _ ds | moveToHueAndSaturation _ _ ds | moveToColorTemperature _ ds => some ds
  | _ => none

namespace Fade
variable {fade : Fade} {t t₁ t₂ : ℕ}

/-- What the fade is sent with. -/
def sent (fade : Fade) (transition : Millis) : Option UInt16 :=
  (commandToCluster (fade.command transition)).bind ClusterCommand.fadeTime

/-- Within a tenth of a second of the transition, or saturated. -/
def Near (ds : UInt16) (t : ℕ) : Prop :=
  (t ≤ 100*ds.toNat+100 ∧ 100*ds.toNat ≤ t+100) ∨ ds.toNat = 65535

/-- Two transitions of a fade come out in their order, each near what was asked for. -/
structure Translated (fade : Fade) (t₁ t₂ : ℕ) (ds₁ ds₂ : UInt16) : Prop where
  first : fade.sent t₁ = some ds₁
  second : fade.sent t₂ = some ds₂
  monotone : ds₁ ≤ ds₂
  near₁ : Near ds₁ t₁
  near₂ : Near ds₂ t₂

/-- The tenths of a second fit 16 bits, or are cut to all ones. -/
def Holds (t : ℕ) : Prop := t/100 < 65536 ∨ t/100%65536 = 65535

/-- Every fade is sent with the same cut. -/
@[simp] theorem sent_eq (fade : Fade) (t : ℕ) :
    fade.sent t = some (UInt16.ofNat (t/100)) := by
  cases fade <;> rfl

theorem toNat_ofNat_tenths (t : ℕ) : (UInt16.ofNat (t/100)).toNat = t/100%65536 :=
  UInt16.toNat_ofNat'

theorem near_iff_holds : Near (UInt16.ofNat (t/100)) t ↔ Holds t := by
  rw [Near,Holds,toNat_ofNat_tenths]
  constructor
  · rintro (⟨hlo,hhi⟩ | hones)
    · left
      omega
    · exact .inr hones
  · rintro (hfits | hones)
    · left
      rw [Nat.mod_eq_of_lt hfits]
      omega
    · exact .inr hones

theorem cut_monotone (h₂ : Holds t₂) (hle : t₁ ≤ t₂) :
    UInt16.ofNat (t₁/100) ≤ UInt16.ofNat (t₂/100) := by
  rw [UInt16.le_iff_toNat_le,toNat_ofNat_tenths,toNat_ofNat_tenths]
  rcases h₂ with hfits | hones
  · rw [Nat.mod_eq_of_lt hfits]
    exact (Nat.mod_le _ _).trans (Nat.div_le_div_right hle)
  · omega

/-- The fades come out right exactly when the tenths of each transition fit 16 bits, or are cut to
all ones. -/
theorem translated_iff_holds (fade : Fade) (hle : t₁ ≤ t₂) :
    (∃ ds₁ ds₂, fade.Translated t₁ t₂ ds₁ ds₂) ↔ Holds t₁ ∧ Holds t₂ := by
  constructor
  · rintro ⟨ds₁,ds₂,h⟩
    obtain rfl := Option.some.inj ((sent_eq fade t₁).symm.trans h.first)
    obtain rfl := Option.some.inj ((sent_eq fade t₂).symm.trans h.second)
    exact ⟨near_iff_holds.mp h.near₁,near_iff_holds.mp h.near₂⟩
  · rintro ⟨h₁,h₂⟩
    exact ⟨_,_,sent_eq fade t₁,sent_eq fade t₂,cut_monotone h₂ hle,near_iff_holds.mpr h₁,
      near_iff_holds.mpr h₂⟩

theorem translated_hour_ninety : ∃ ds₁ ds₂,
    (brightness ⟨0⟩ 50).Translated 3600000 5400000 ds₁ ds₂ :=
  (translated_iff_holds (brightness ⟨0⟩ 50) (by decide)).mpr
    ⟨.inl (by decide),.inl (by decide)⟩

/-- A fade of two hours is sent shorter than one of an hour. -/
theorem not_translated_two_hours :
    durationOf "1h" = some 3600000 ∧ durationOf "2h" = some 7200000 ∧
      (brightness ⟨0⟩ 50).sent 3600000 = some 36000 ∧
      (brightness ⟨0⟩ 50).sent 7200000 = some 6464 ∧
      ¬∃ ds₁ ds₂, (brightness ⟨0⟩ 50).Translated 3600000 7200000 ds₁ ds₂ := by
  refine ⟨by decide,by decide,rfl,rfl,?_⟩
  rintro ⟨ds₁,ds₂,h⟩
  cases h.first
  cases h.second
  exact absurd h.monotone (by decide)

end Fade
end Domiform
