import Domiform.Bindings
import Domiform.Compile.Naming
import Domiform.Compile.Words

/-! References to events. A trigger names an event as `<device>.<event>` in one string, which is cut
at its first dot. -/
namespace Domiform
open Library Resolve

section Accepted
variable {lib : Libraries} {π : HashOrder} {raw : RawConfig} {cfg : CompiledConfig}

/-- `{event: 'device.event'}`. -/
def eventTrigger (device event : String) : Value :=
  .mapping [(.string "event",.string (device ++ "." ++ event))]

/-- What the two halves of the text lower to. -/
theorem Lowerer.trigger_event (lw : Lowerer) (context : String) {device event : String}
    {a b : List Char} (h : Text.splitOnce '.' (device ++ "." ++ event).toList = some (a,b)) :
    lw.trigger context (eventTrigger device event) = (do
      let device ← lw.resolveDevice (.ofList a) context
      let action ← lw.resolveEvent device (.ofList a) (.ofList b) context
      pure (.action device action)) := by
  have named : asName (.string (device ++ "." ++ event)) "event" context =
    pure (device ++ "." ++ event) := rfl
  change lw.triggerOf "event" (.string (device ++ "." ++ event)) context = _
  rw [triggerOf,if_pos rfl,named,Checked.pure_bind,h]

/-- The trigger that names an event of a device is lowered to it exactly when the name of the device
has no dot. -/
theorem event_reference_resolves_iff (accepted : resolve lib π raw = .ok cfg) {d : DeviceDef}
    (hd : d ∈ cfg.devices) {e : DeviceEvent} (he : e ∈ d.events) (context : String) :
    (lowerer lib raw).trigger context (eventTrigger d.name e.name) = pure (.action d.id e.id) ↔
      '.' ∉ d.name.toList := by
  have text : (d.name ++ "." ++ e.name).toList = d.name.toList ++ '.' :: e.name.toList := by
    simp
  constructor
  · intro h dotted
    obtain ⟨a,b,hab⟩ : ∃ a b, Text.splitOnce '.' (d.name ++ "." ++ e.name).toList = some (a,b) := by
      apply Text.splitOnce_of_mem
      simp [text]
    have hna := (Text.splitOnce_eq_some.mp hab).2
    rw [Lowerer.trigger_event _ _ hab] at h
    have hv := congrArg Checked.value h
    obtain ⟨device,hdev,hrest⟩ := Checked.value_bind_eq_some.mp hv
    obtain ⟨action,-,hact⟩ := Checked.value_bind_eq_some.mp hrest
    cases hact
    have hl : (lowerer lib raw).deviceIndex.lookup (.ofList a) = some d.id := by
      unfold Lowerer.resolveDevice at hdev
      split at hdev
      · cases hdev
        assumption
      · cases hdev
    have same := name_of_lookup accepted hd hl
    rw [← same,String.toList_ofList] at dotted
    exact hna dotted
  · intro undotted
    obtain ⟨named,placed⟩ := device_indexed accepted hd
    have hab := Text.splitOnce_append (t := e.name.toList) undotted
    rw [← text] at hab
    have found := find?_of_nodup (event_names_nodup accepted d hd) he
    rw [Lowerer.trigger_event _ _ hab,String.ofList_toList,String.ofList_toList,
      Lowerer.resolveDevice,named]
    simp only [Checked.pure_bind,Lowerer.resolveEvent,placed,found]

end Accepted

/-- One remote has a name that reads as an event of the other. -/
def remotesConfig : RawConfig where
  system := .default
  adapters := .single "bus" ⟨"virtual",.mapping []⟩
  devices := .pair (show "hall" < "hall.left" by decide)
    ⟨"bus",none,none,[],.single "left.press" "1",none,none,none⟩
    ⟨"bus",none,none,[],.single "press" "2",none,none,none⟩
  scenes := .empty
  schedules := .empty
  rules := .empty

theorem hall_left_press_resolves : ∃ cfg,
    resolve plainLibraries .identity remotesConfig = .ok cfg ∧
      (lowerer plainLibraries remotesConfig).trigger "rule 'left'"
        (eventTrigger "hall" "left.press") = pure (.action ⟨0⟩ ⟨0⟩) := by
  obtain ⟨cfg,d,e,h,hd,he,hdn,hdi,hen,hei⟩ : ∃ cfg d e,
      resolve plainLibraries .identity remotesConfig = .ok cfg ∧ d ∈ cfg.devices ∧ e ∈ d.events ∧
        d.name = "hall" ∧ d.id = ⟨0⟩ ∧ e.name = "left.press" ∧ e.id = ⟨0⟩ :=
    ⟨_,_,_,rfl,List.mem_cons_self,List.mem_cons_self,rfl,rfl,rfl,rfl⟩
  have resolves := event_reference_resolves_iff h hd he "rule 'left'"
  rw [hdn,hdi,hen,hei] at resolves
  exact ⟨cfg,h,resolves.mpr (by decide)⟩

/-- The press of the second remote is taken for an event of the first. -/
theorem hall_left_is_taken_for_hall : ∃ cfg,
    resolve plainLibraries .identity remotesConfig = .ok cfg ∧
      (∃ d ∈ cfg.devices, d.name = "hall.left" ∧ d.id = ⟨1⟩ ∧
        ∃ e ∈ d.events, e.name = "press" ∧ e.id = ⟨1⟩) ∧
      (lowerer plainLibraries remotesConfig).trigger "rule 'left'"
        (eventTrigger "hall.left" "press") = pure (.action ⟨0⟩ ⟨0⟩) :=
  ⟨_,rfl,⟨_,List.mem_cons_of_mem _ List.mem_cons_self,rfl,rfl,_,List.mem_cons_self,rfl,rfl⟩,rfl⟩

end Domiform
