import Domiform.Compile.Resolve
import Domiform.RestApi

/-! The directory: the devices of a config as the REST API presents them, the synthetic clock last. -/
namespace Domiform

def DeviceEntry.ofDevice (d : DeviceDef) : DeviceEntry where
  id := d.id
  name := d.name
  room := d.metadata.room
  capabilities := d.capabilities
  events := d.events.map fun e => (e.name,e.id)
  synthetic := false

/-- `CLOCK_DEVICE_NAME`. -/
def clockDeviceName : String := "clock"

/-- The device behind the conditions on the sun and the time. -/
def DeviceEntry.clock (id : DeviceId) : DeviceEntry where
  id
  name := clockDeviceName
  room := none
  capabilities := [.timeOfDay,.sunUp]
  events := []
  synthetic := true

/-- `Directory::from_config`. -/
def Directory.fromConfig (cfg : CompiledConfig) : Directory :=
  ⟨cfg.devices.map DeviceEntry.ofDevice ++ [.clock cfg.clockDevice]⟩

/-- A capability that can be written is one of a configured device. -/
theorem Directory.mem_writable {cfg : CompiledConfig} {entry : DeviceEntry} {kind : CapabilityKind}
    (listed : entry ∈ (fromConfig cfg).devices) (declared : kind ∈ entry.capabilities)
    (writable : kind.isWritable = true) : ∃ d ∈ cfg.devices, entry = .ofDevice d := by
  rcases List.mem_append.mp listed with h | h
  · obtain ⟨d,hd,rfl⟩ := List.mem_map.mp h
    exact ⟨d,hd,rfl⟩
  · cases List.mem_singleton.mp h
    have hk : kind = .timeOfDay ∨ kind = .sunUp := by simpa [DeviceEntry.clock] using declared
    rcases hk with rfl | rfl <;> cases writable

end Domiform
