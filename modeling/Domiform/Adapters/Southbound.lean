import Domiform.Adapters.Clock
import Domiform.Adapters.ZwaveJs

/-! The southbound adapters of the repository in one table, over whatever transports they have. None
of them ever reports the expiry of a timer. -/
namespace Domiform
open Library

inductive SouthboundAdapter (T C Z : Type)
  | virtual (a : VirtualDeviceAdapter)
  | mock (a : MockDeviceAdapter)
  | zigbee2mqtt (a : Zigbee2MqttAdapter T)
  | matter (a : MatterAdapter C)
  | zwavejs (a : ZwaveAdapter Z)
  | clock (a : ClockAdapter)

namespace SouthboundAdapter
variable {T C Z : Type} [MqttTransport T] [MatterController C] [ZwaveClient Z]

def dispatch (cmd : Command) (now : Millis) :
    SouthboundAdapter T C Z → DispatchOutcome × SouthboundAdapter T C Z
  | virtual a => (Adapter.dispatch a cmd now).map id virtual
  | mock a => (Adapter.dispatch a cmd now).map id mock
  | zigbee2mqtt a => (Adapter.dispatch a cmd now).map id zigbee2mqtt
  | matter a => (Adapter.dispatch a cmd now).map id matter
  | zwavejs a => (Adapter.dispatch a cmd now).map id zwavejs
  | clock a => (Adapter.dispatch a cmd now).map id clock

def tick (now : Millis) : SouthboundAdapter T C Z → List Event × SouthboundAdapter T C Z
  | virtual a => (Adapter.tick a now).map id virtual
  | mock a => (Adapter.tick a now).map id mock
  | zigbee2mqtt a => (Adapter.tick a now).map id zigbee2mqtt
  | matter a => (Adapter.tick a now).map id matter
  | zwavejs a => (Adapter.tick a now).map id zwavejs
  | clock a => (Adapter.tick a now).map id clock

def nextWake (now : Millis) : SouthboundAdapter T C Z → Option Millis
  | virtual a => Adapter.nextWake a now
  | mock a => Adapter.nextWake a now
  | zigbee2mqtt a => Adapter.nextWake a now
  | matter a => Adapter.nextWake a now
  | zwavejs a => Adapter.nextWake a now
  | clock a => Adapter.nextWake a now

instance : Adapter (SouthboundAdapter T C Z) where
  dispatch a cmd now := a.dispatch cmd now
  tick a now := a.tick now
  nextWake a now := a.nextWake now

end SouthboundAdapter

/-- Nothing in the list is the expiry of a timer. -/
abbrev Timerless (evs : List Event) : Prop := ∀ ev ∈ evs, ev.isTimerElapsed = false

theorem timerless_nil : Timerless [] := fun _ h => absurd h List.not_mem_nil

theorem timerless_append {xs ys : List Event} (hx : Timerless xs) (hy : Timerless ys) :
    Timerless (xs ++ ys) := List.forall_mem_append.mpr ⟨hx,hy⟩

theorem timerless_map {α : Type} {f : α → Event} (hf : ∀ a, (f a).isTimerElapsed = false)
    (xs : List α) : Timerless (xs.map f) := List.forall_mem_map.mpr fun a _ => hf a

theorem timerless_option {α : Type} {f : α → Event} (hf : ∀ a, (f a).isTimerElapsed = false)
    (x : Option α) : Timerless (x.map f).toList := by
  cases x with
  | none => exact timerless_nil
  | some a => exact List.forall_mem_singleton.mpr (hf a)

theorem timerless_bind {α β : Type} {f : β → Event} (hf : ∀ b, (f b).isTimerElapsed = false)
    (x : Option α) (g : α → Option β) : Timerless (x.bind fun a => (g a).map f).toList := by
  cases x with
  | none => exact timerless_nil
  | some a => exact timerless_option hf (g a)

theorem timerless_flatMap {α : Type} {f : α → List Event} (hf : ∀ a, Timerless (f a))
    (xs : List α) : Timerless (xs.flatMap f) := by
  intro ev h
  obtain ⟨a,-,ha⟩ := List.mem_flatMap.mp h
  exact hf a ev ha

namespace Zigbee2MqttAdapter
variable {T : Type} [MqttTransport T]

/-- The one answer that is no failure carries no event. -/
theorem ok_of_dispatch {a : Zigbee2MqttAdapter T} {cmd : Command} {evs : List Event}
    (h : (a.dispatch cmd).1 = .ok evs) : evs = [] := by
  unfold dispatch at h
  repeat' split at h
  all_goals cases h
  rfl

theorem dispatchTimerless : Adapter.DispatchTimerless (Zigbee2MqttAdapter T) := by
  intro a cmd now evs h
  rw [ok_of_dispatch h]
  exact timerless_nil

theorem tickTimerless : Adapter.TickTimerless (Zigbee2MqttAdapter T) := by
  intro a now
  refine timerless_flatMap (fun msg => ?_) _
  unfold Zigbee2Mqtt.messageToEvents
  split
  · exact timerless_nil
  · split
    · exact timerless_nil
    · split
      · refine timerless_flatMap (fun device => ?_) _
        refine timerless_append (timerless_append ?_ ?_) ?_
        · exact timerless_option (fun _ => rfl) _
        · split
          · exact timerless_map (fun _ => rfl) _
          · exact timerless_nil
        · exact timerless_bind (fun _ => rfl) _ _
      · exact timerless_nil

end Zigbee2MqttAdapter

namespace MatterAdapter
variable {C : Type} [MatterController C]

/-- The one answer that is no failure carries no event. -/
theorem ok_of_dispatch {a : MatterAdapter C} {cmd : Command} {evs : List Event}
    (h : (a.dispatch cmd).1 = .ok evs) : evs = [] := by
  unfold dispatch at h
  repeat' split at h
  all_goals cases h
  rfl

theorem dispatchTimerless : Adapter.DispatchTimerless (MatterAdapter C) := by
  intro a cmd now evs h
  rw [ok_of_dispatch h]
  exact timerless_nil

omit [MatterController C] in
theorem timerless_hear (a : MatterAdapter C) (r : AttrReport) : Timerless (a.hear r).1 := by
  unfold hear
  split
  · split
    · exact timerless_nil
    · unfold Matter.foldHueSat
      split
      · exact timerless_nil
      · dsimp only
        split
        · exact timerless_nil
        · split
          · exact List.forall_mem_singleton.mpr rfl
          · exact timerless_nil
  · unfold Matter.reportToEvents
    split
    · exact timerless_nil
    · exact timerless_option (fun _ => rfl) _

omit [MatterController C] in
theorem timerless_hearAll (a : MatterAdapter C) (rs : List AttrReport) :
    Timerless (a.hearAll rs).1 := by
  induction rs generalizing a with
  | nil => exact timerless_nil
  | cons r rs ih => exact timerless_append (a.timerless_hear r) (ih _)

theorem tickTimerless : Adapter.TickTimerless (MatterAdapter C) :=
  fun _ _ => timerless_hearAll _ _

end MatterAdapter

namespace ZwaveAdapter
variable {Z : Type} [ZwaveClient Z]

/-- The one answer that is no failure carries no event. -/
theorem ok_of_dispatch {a : ZwaveAdapter Z} {cmd : Command} {evs : List Event}
    (h : (a.dispatch cmd).1 = .ok evs) : evs = [] := by
  unfold dispatch at h
  repeat' split at h
  all_goals cases h
  rfl

theorem dispatchTimerless : Adapter.DispatchTimerless (ZwaveAdapter Z) := by
  intro a cmd now evs h
  rw [ok_of_dispatch h]
  exact timerless_nil

theorem tickTimerless : Adapter.TickTimerless (ZwaveAdapter Z) := by
  intro a now
  refine timerless_flatMap (fun u => ?_) _
  unfold ZwaveJs.updateToEvents
  split
  · exact timerless_nil
  · split
    · split
      · exact timerless_bind (fun _ => rfl) _ _
      · exact timerless_nil
    · exact timerless_map (fun _ => rfl) _

end ZwaveAdapter

namespace ClockAdapter

theorem tickTimerless : Adapter.TickTimerless ClockAdapter := by
  intro c now
  refine timerless_append ?_ (timerless_map (fun _ => rfl) _)
  unfold report
  dsimp only
  split
  · exact timerless_nil
  · exact List.forall_mem_cons.mpr ⟨rfl,List.forall_mem_singleton.mpr rfl⟩

end ClockAdapter

namespace SouthboundAdapter
variable {T C Z : Type} [MqttTransport T] [MatterController C] [ZwaveClient Z]

theorem dispatchTimerless : Adapter.DispatchTimerless (SouthboundAdapter T C Z) := by
  intro a cmd now evs h
  cases a with
  | virtual a => exact VirtualDeviceAdapter.dispatchTimerless a cmd now evs h
  | mock a =>
    apply VirtualDeviceAdapter.dispatchTimerless {} cmd now evs
    exact (MockDeviceAdapter.dispatch_eq_virtual cmd).symm.trans h
  | zigbee2mqtt a => exact Zigbee2MqttAdapter.dispatchTimerless a cmd now evs h
  | matter a => exact MatterAdapter.dispatchTimerless a cmd now evs h
  | zwavejs a => exact ZwaveAdapter.dispatchTimerless a cmd now evs h
  | clock a => cases h

theorem tickTimerless : Adapter.TickTimerless (SouthboundAdapter T C Z) := by
  intro a now
  cases a with
  | virtual a => exact VirtualDeviceAdapter.tickTimerless a now
  | mock a => exact timerless_nil
  | zigbee2mqtt a => exact Zigbee2MqttAdapter.tickTimerless a now
  | matter a => exact MatterAdapter.tickTimerless a now
  | zwavejs a => exact ZwaveAdapter.tickTimerless a now
  | clock a => exact ClockAdapter.tickTimerless a now

end SouthboundAdapter

end Domiform
