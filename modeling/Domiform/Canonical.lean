import Domiform.Library.Cut
import Domiform.RestApi.Wire
import Domiform.Waking

/-! Canonical units. Percentages go up to 100 and minutes stay within a day, in whatever a device, a
clock or a consumer says; only a command of the config is echoed as it was written. -/
namespace Domiform
open Library Relation

/-- What the event reports or asks for is within its range. -/
def Event.Canonical : Event → Prop
  | .stateReported _ state => state.Canonical
  | .requestedChange _ (.set state) => state.Canonical
  | _ => True

/-! ### The four decoders -/

theorem toNat_min_le (n : ℕ) : (UInt8.ofNat (min n 100)).toNat ≤ 100 := by
  rw [UInt8.toNat_ofNat_of_lt' (by simp [UInt8.size])]
  exact min_le_right n 100

theorem forall_mem_toList_map {α β : Type} {P : β → Prop} {f : α → β} (h : ∀ a, P (f a))
    (o : Option α) : ∀ b ∈ (o.map f).toList, P b := by
  cases o with
  | none => simp
  | some a => simpa using h a

theorem levelToPct_canonical (raw : ℕ) : (CapabilityState.brightness (levelToPct raw)).Canonical :=
  UInt8.le_iff_toNat_le.mp (levelToPct_le raw)

/-- Rounding and clamping leave no float above 100. -/
theorem Zigbee2Mqtt.toNat_clamp_le (x : Float) : (clamp x 0 100).toUInt8.toNat ≤ 100 := by
  rw [clamp]
  split_ifs with hlow hhigh
  · decide
  · decide
  · obtain ⟨hpos,hu⟩ : ∃ h, (100 : Float).toModel.unpack = .finite .positive (100*2^46) (-46) h :=
      ⟨by decide,rfl⟩
    exact toUInt8_le hu (by decide) (by decide) hhigh

theorem Zigbee2Mqtt.rootStates_canonical (json : Json) : ∀ s ∈ rootStates json, s.Canonical := by
  simp only [rootStates,List.forall_mem_append]
  refine ⟨⟨⟨⟨⟨⟨⟨⟨⟨⟨⟨?_,?_⟩,?_⟩,?_⟩,?_⟩,?_⟩,?_⟩,?_⟩,?_⟩,?_⟩,?_⟩,?_⟩
  · exact forall_mem_toList_map levelToPct_canonical _
  · exact forall_mem_toList_map (fun _ => trivial) _
  · exact forall_mem_toList_map (fun _ => trivial) _
  · exact forall_mem_toList_map (fun _ => trivial) _
  · exact forall_mem_toList_map toNat_min_le _
  · exact forall_mem_toList_map (fun _ => trivial) _
  · exact forall_mem_toList_map (fun x => toNat_clamp_le x.round) _
  · exact forall_mem_toList_map (fun _ => trivial) _
  · exact forall_mem_toList_map (fun _ => trivial) _
  · exact forall_mem_toList_map (fun _ => trivial) _
  · exact forall_mem_toList_map (fun _ => trivial) _
  · exact forall_mem_toList_map (fun _ => trivial) _

theorem Zigbee2Mqtt.messageToEvents_canonical (base : String)
    (byName : HashMap String (List DeviceId)) (channels : DeviceId → LoadChannel)
    (actions : HashMap DeviceId (HashMap String ActionId)) (msg : MqttMessage) :
    ∀ ev ∈ messageToEvents base byName channels actions msg, ev.Canonical := by
  intro ev hev
  unfold messageToEvents at hev
  split at hev
  · cases hev
  · split_ifs at hev
    · cases hev
    · split at hev
      · rename_i devices json _ _
        obtain ⟨device,-,hev⟩ := List.mem_flatMap.mp hev
        rw [jsonToDeviceEvents,List.mem_append,List.mem_append] at hev
        rcases hev with (hev | hev) | hev
        · refine forall_mem_toList_map ?_ _ ev hev
          exact fun _ => trivial
        · split_ifs at hev
          · obtain ⟨s,hs,rfl⟩ := List.mem_map.mp hev
            exact rootStates_canonical json s hs
          · cases hev
        · obtain ⟨_,-,hev⟩ := Option.bind_eq_some_iff.mp (Option.mem_toList.mp hev)
          obtain ⟨_,-,rfl⟩ := Option.map_eq_some_iff.mp hev
          trivial
      · cases hev

theorem Matter.reportState_canonical {r : AttrReport} {s : CapabilityState}
    (h : reportState r = some s) : s.Canonical := by
  unfold reportState at h
  split at h
  · obtain ⟨_,-,rfl⟩ := Option.map_eq_some_iff.mp h
    trivial
  · obtain ⟨level,-,rfl⟩ := Option.map_eq_some_iff.mp h
    exact levelToPct_canonical level
  · obtain ⟨_,-,rfl⟩ := Option.map_eq_some_iff.mp h
    trivial
  · obtain ⟨_,-,rfl⟩ := Option.map_eq_some_iff.mp h
    trivial
  · obtain ⟨half,-,rfl⟩ := Option.map_eq_some_iff.mp h
    exact toNat_min_le (half/2)
  · cases h

theorem Matter.foldHueSat_canonical (acc : HueSat) (device : DeviceId) (r : AttrReport) :
    ∀ ev ∈ (foldHueSat acc device r).2, ev.Canonical := by
  intro ev hev
  unfold foldHueSat at hev
  split at hev
  · cases hev
  · dsimp only at hev
    split at hev
    · cases hev
    · split at hev
      · cases hev
        trivial
      · cases hev

theorem MatterAdapter.hear_canonical {C : Type} (a : MatterAdapter C) (r : AttrReport) :
    ∀ ev ∈ (a.hear r).1, ev.Canonical := by
  intro ev hev
  rw [hear] at hev
  split_ifs at hev
  · split at hev
    · cases hev
    · exact Matter.foldHueSat_canonical _ _ r ev (Option.mem_toList.mp hev)
  · unfold Matter.reportToEvents at hev
    split at hev
    · cases hev
    · obtain ⟨s,hs,rfl⟩ := Option.map_eq_some_iff.mp (Option.mem_toList.mp hev)
      exact Matter.reportState_canonical hs

theorem MatterAdapter.hearAll_canonical {C : Type} (a : MatterAdapter C) (rs : List AttrReport) :
    ∀ ev ∈ (a.hearAll rs).1, ev.Canonical := by
  induction rs generalizing a with
  | nil => simp [hearAll]
  | cons r rs ih =>
    rw [hearAll]
    exact List.forall_mem_append.mpr ⟨a.hear_canonical r,ih _⟩

theorem ZwaveJs.zwaveToPct_canonical (level : ℕ) :
    (CapabilityState.brightness (zwaveToPct level)).Canonical := by
  have h : (min level 99*100+49)/99 ≤ 100 := by omega
  change (zwaveToPct level).toNat ≤ 100
  rw [zwaveToPct,UInt8.toNat_ofNat_of_lt' (by simp [UInt8.size]; omega)]
  exact h

theorem ZwaveJs.updateStates_canonical (u : ValueUpdate) :
    ∀ s ∈ updateStates u, s.Canonical := by
  unfold updateStates
  split_ifs
  · exact forall_mem_toList_map (fun _ => trivial) _
  · split
    · rename_i level _
      simpa using ⟨zwaveToPct_canonical level,trivial⟩
    · simp
  · exact forall_mem_toList_map toNat_min_le _
  · split
    · simp [CapabilityState.Canonical]
    · exact forall_mem_toList_map (fun _ => trivial) _
  · split <;> simp [CapabilityState.Canonical]
  · simp

theorem ZwaveJs.updateToEvents_canonical (byNode : HashMap NodeAddress DeviceId)
    (actions : HashMap DeviceId (HashMap String ActionId)) (u : ValueUpdate) :
    ∀ ev ∈ updateToEvents byNode actions u, ev.Canonical := by
  intro ev hev
  unfold updateToEvents at hev
  split at hev
  · cases hev
  · split_ifs at hev
    · obtain ⟨_,-,hev⟩ := Option.bind_eq_some_iff.mp (Option.mem_toList.mp hev)
      obtain ⟨_,-,rfl⟩ := Option.map_eq_some_iff.mp hev
      trivial
    · cases hev
    · obtain ⟨s,hs,rfl⟩ := List.mem_map.mp hev
      exact updateStates_canonical u s hs

theorem ClockAdapter.tick_canonical (c : ClockAdapter) (now : Millis) :
    ∀ ev ∈ (c.tick now).1, ev.Canonical := by
  have hminute := c.minuteOf_lt (c.wallUtc now)
  rw [← c.toNat_minute] at hminute
  intro ev hev
  rw [tick,List.mem_append] at hev
  rcases hev with hev | hev
  · unfold report at hev
    dsimp only at hev
    split_ifs at hev
    · cases hev
    · rcases List.mem_pair.mp hev with rfl | rfl
      · exact hminute
      · trivial
  · obtain ⟨_,-,rfl⟩ := List.mem_map.mp hev
    trivial

/-! ### Commands are answered by silence, or by their echo -/

theorem VirtualDeviceAdapter.dispatch_canonical {cmd : Command} {evs : List Event}
    (h : dispatch cmd = .ok evs) (echo : ∀ s, cmd.echo = some s → s.Canonical) :
    ∀ ev ∈ evs, ev.Canonical := by
  unfold dispatch at h
  split at h
  · rename_i state device hs _
    cases h
    exact List.forall_mem_singleton.mpr (echo state hs)
  · cases h
    simp

namespace SouthboundAdapter
variable {T C Z : Type} [MqttTransport T] [MatterController C] [ZwaveClient Z]

/-- Adapters without hardware behind them: they report what they are told. -/
def isEcho : SouthboundAdapter T C Z → Bool
  | virtual _ | mock _ => true
  | _ => false

theorem tick_canonical (a : SouthboundAdapter T C Z) (now : Millis) :
    ∀ ev ∈ (a.tick now).1, ev.Canonical := by
  cases a with
  | virtual a | mock a => exact fun _ h => absurd h List.not_mem_nil
  | zigbee2mqtt a =>
    intro ev hev
    obtain ⟨msg,-,hev⟩ := List.mem_flatMap.mp hev
    exact Zigbee2Mqtt.messageToEvents_canonical _ _ _ _ msg ev hev
  | matter a => exact MatterAdapter.hearAll_canonical _ _
  | zwavejs a =>
    intro ev hev
    obtain ⟨u,-,hev⟩ := List.mem_flatMap.mp hev
    exact ZwaveJs.updateToEvents_canonical _ _ u ev hev
  | clock a => exact a.tick_canonical now

theorem isEcho_tick (a : SouthboundAdapter T C Z) (now : Millis) :
    (a.tick now).2.isEcho = a.isEcho := by
  cases a <;> rfl

theorem isEcho_dispatch (a : SouthboundAdapter T C Z) (cmd : Command) (now : Millis) :
    (a.dispatch cmd now).2.isEcho = a.isEcho := by
  cases a <;> rfl

/-- Only an echo answers a command with a report. -/
theorem dispatch_canonical {a : SouthboundAdapter T C Z} {cmd : Command} {now : Millis}
    {evs : List Event} (h : (a.dispatch cmd now).1 = .ok evs)
    (echo : a.isEcho = true → ∀ s, cmd.echo = some s → s.Canonical) : ∀ ev ∈ evs, ev.Canonical := by
  have silent (he : evs = []) : ∀ ev ∈ evs, ev.Canonical := by
    rw [he]
    exact List.forall_mem_nil _
  cases a with
  | virtual a => exact VirtualDeviceAdapter.dispatch_canonical h (echo rfl)
  | mock a =>
    have hv : VirtualDeviceAdapter.dispatch cmd = .ok evs :=
      (MockDeviceAdapter.dispatch_eq_virtual cmd).symm.trans h
    exact VirtualDeviceAdapter.dispatch_canonical hv (echo rfl)
  | zigbee2mqtt a => exact silent (Zigbee2MqttAdapter.ok_of_dispatch h)
  | matter a => exact silent (MatterAdapter.ok_of_dispatch h)
  | zwavejs a => exact silent (ZwaveAdapter.ok_of_dispatch h)
  | clock a => cases h

end SouthboundAdapter

/-! ### Requests -/

/-- A request as the HTTP threads queue it: what was asked of a device is what its body said. -/
def Inbound.Posted : Inbound → Prop
  | device _ desired => ∃ entry body, parseIntent entry body = .ok desired
  | scene _ | action _ _ => True

theorem Inbound.Posted.canonical {x : Inbound} (h : x.Posted) : x.event.Canonical := by
  cases x with
  | device device desired =>
    obtain ⟨entry,body,hp⟩ := h
    cases desired with
    | set s => exact (parseIntent_asks hp).2 s rfl
    | _ => trivial
  | _ => trivial

/-- The consumers of a northbound adapter ask for nothing out of range. -/
def NorthboundCanonical : RestApiAdapter ⊕ MockNorthbound → Prop
  | .inl a => ∀ batch ∈ a.inbound, ∀ x ∈ batch, x.Posted
  | .inr m => ∀ x ∈ m.pendingWrites, (Event.requestedChange x.1 x.2).Canonical

theorem NorthboundCanonical.stateFolded {n : RestApiAdapter ⊕ MockNorthbound}
    (h : NorthboundCanonical n) (device : DeviceId) (state : CapabilityState) :
    NorthboundCanonical (NorthboundAdapter.stateFolded n device state) := by
  cases n <;> exact h

theorem NorthboundCanonical.tick {n : RestApiAdapter ⊕ MockNorthbound} (h : NorthboundCanonical n)
    (now : Millis) : (∀ ev ∈ (Adapter.tick n now).1, ev.Canonical) ∧
      NorthboundCanonical (Adapter.tick n now).2 := by
  cases n with
  | inl a =>
    obtain ⟨shared,inbound⟩ := a
    refine ⟨fun ev hev => ?_,fun batch hb => h batch (List.mem_of_mem_tail hb)⟩
    obtain ⟨x,hx,rfl⟩ := List.mem_map.mp hev
    cases inbound with
    | nil => cases hx
    | cons batch rest => exact (h batch List.mem_cons_self x hx).canonical
  | inr m =>
    refine ⟨fun ev hev => ?_,List.forall_mem_nil _⟩
    rcases List.mem_append.mp hev with hev | hev
    · obtain ⟨x,hx,rfl⟩ := List.mem_map.mp hev
      exact h x hx
    · obtain ⟨scene,-,rfl⟩ := List.mem_map.mp hev
      trivial

end Domiform
