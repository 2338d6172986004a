import Domiform.Compile.Build
import Domiform.Engine.Panic

/-! Bindings. Slot 0 is the scheduler, southbound adapters follow in config order, the clock is last.
Northbound adapters get the sentinel for a slot, which is only harmless as long as no device names
one. -/
namespace Domiform
open Library Build

section
variable {A N : Type}

/-- The device is bound to a slot of the table, behind which is the adapter it names. -/
def WellBound (b : Builders A N) (cfg : CompiledConfig) (e : Engine A N) (d : DeviceDef) : Prop :=
  ∃ idx adapter plugin, e.deviceToAdapter.lookup d.id = some idx ∧ idx < e.adapters.size ∧
    idx ≠ noSlot ∧ cfg.adapters[d.adapter]? = some adapter ∧ adapter.plugin = some plugin ∧
    e.adapters.slot idx = some (b.build plugin adapter.config (devicesOf cfg d.adapter))

/-- The clock device is bound to the slot of the clock. -/
def ClockBound (b : Builders A N) (cfg : CompiledConfig) (e : Engine A N) : Prop :=
  ∃ idx, e.deviceToAdapter.lookup cfg.clockDevice = some idx ∧ idx < e.adapters.size ∧
    idx ≠ noSlot ∧
    e.adapters.slot idx = some (b.clock cfg.clockDevice cfg.system cfg.schedules)

/-- Every binding is in range, and routing never indexes out of it. -/
def InRange [Adapter A] [NorthboundAdapter N] (π : HashOrder) (e : Engine A N) : Prop :=
  (∀ id idx, e.deviceToAdapter.lookup id = some idx → idx < e.adapters.size ∧ idx ≠ noSlot) ∧
    ∀ fuel ev depth idx, e.process π fuel ev depth ≠ .error (.noAdapter idx)

/-- Some device of the config names a northbound adapter. -/
def NamesNorthbound (raw : RawConfig) : Prop :=
  ∃ device ∈ raw.devices.entries, ∃ adapter ∈ raw.adapters.entries,
    adapter.1 = device.2.adapter ∧ adapter.2.kind = "mock_northbound"

variable {b : Builders A N} {cfg : CompiledConfig} {e : Engine A N}

theorem Built.clockBound (h : Built b cfg e) : ClockBound b cfg e := by
  obtain ⟨idx,hl,hs⟩ := h.clock
  have hlt := AdapterTable.slot_lt hs
  exact ⟨idx,hl,hlt,(hlt.trans h.small).ne,hs⟩

/-- A device is well bound exactly when its adapter is southbound. -/
theorem Built.wellBound_iff (h : Built b cfg e) {d : DeviceDef} (hd : d ∈ cfg.devices)
    {adapter : AdapterDef} (ha : cfg.adapters[d.adapter]? = some adapter) {plugin : Plugin}
    (hp : adapter.plugin = some plugin) :
    WellBound b cfg e d ↔ plugin ≠ .mockNorthbound := by
  obtain ⟨x,idx,hx,hl,p,hxp,hsouth,hnorth⟩ := h.device d hd
  obtain rfl : x = adapter := Option.some.inj (hx.symm.trans ha)
  obtain rfl : p = plugin := Option.some.inj (hxp.symm.trans hp)
  rw [Ne,← Plugin.polarity_eq_northbound]
  constructor
  · rintro ⟨idx',-,-,hl',-,hne,-⟩ hpol
    rw [hl] at hl'
    cases hl'
    exact hne (hnorth hpol)
  · intro hpol
    have hs := hsouth (by cases hp : p.polarity <;> first | rfl | exact absurd hp hpol)
    have hlt := AdapterTable.slot_lt hs
    exact ⟨idx,x,p,hl,hlt,(hlt.trans h.small).ne,ha,hp,hs⟩

/-- Once every device is well bound, no binding leaves the table. -/
theorem Built.bindings_lt (h : Built b cfg e) (hw : ∀ d ∈ cfg.devices, WellBound b cfg e d)
    {id : DeviceId} {idx : AdapterIdx} (hl : e.deviceToAdapter.lookup id = some idx) :
    idx < e.adapters.size ∧ idx ≠ noSlot := by
  rcases h.bound id idx hl with rfl | ⟨d,hd,rfl⟩
  · obtain ⟨idx',hl',hlt,hne,-⟩ := h.clockBound
    rw [hl] at hl'
    cases hl'
    exact ⟨hlt,hne⟩
  · obtain ⟨idx',-,-,hl',hlt,hne,-⟩ := hw d hd
    rw [hl] at hl'
    cases hl'
    exact ⟨hlt,hne⟩

end

/-- Whatever is wired from an accepted config, its bindings are the right slots, and stay in range
over every run, exactly when no device names a northbound adapter. The clock's always is. -/
theorem bindings_in_range {A N : Type} [Adapter A] [NorthboundAdapter N] (b : Builders A N)
    {lib : Libraries} {π : HashOrder} {raw : RawConfig} {cfg : CompiledConfig}
    (accepted : resolve lib π raw = .ok cfg) :
    ∃ e, buildEngineFull b cfg = some e ∧ ClockBound b cfg e ∧
      ((∀ d ∈ cfg.devices, WellBound b cfg e d) ∧
          (∀ host p c, Run π host ⟨e,p⟩ c → InRange π c.engine) ↔
        ¬NamesNorthbound raw) := by
  obtain ⟨e,he,hb⟩ := buildEngineFull_built b accepted
  refine ⟨e,he,hb.clockBound,?_,fun hn => ?_⟩
  · rintro ⟨hw,-⟩ ⟨device,hd,adapter,ha,hname,hkind⟩
    obtain ⟨d,hm,-,hx⟩ := device_of_entry accepted hd ha hname
    have hp : (Resolve.adapterDef adapter).plugin = some .mockNorthbound := by
      rw [Resolve.adapterDef,hkind]
      rfl
    exact (hb.wellBound_iff hm hx hp).mp (hw d hm) rfl
  · have hw : ∀ d ∈ cfg.devices, WellBound b cfg e d := by
      intro d hd
      obtain ⟨device,hdm,adapter,ham,-,hname,hx⟩ := adapter_of_device accepted hd
      obtain ⟨p,hp⟩ := plugin_of_accepted accepted _ (List.mem_of_getElem? hx)
      rw [hb.wellBound_iff hd hx hp]
      rintro rfl
      exact hn ⟨device,hdm,adapter,ham,hname,(Plugin.pluginFor_eq_some hp).symm⟩
    refine ⟨hw,fun host p c run => ?_⟩
    have hwire := Run.wiring run
    have hlt : ∀ id idx, c.engine.deviceToAdapter.lookup id = some idx →
        idx < c.engine.adapters.size ∧ idx ≠ noSlot := by
      intro id idx hl
      rw [hwire.deviceToAdapter] at hl
      rw [hwire.size]
      exact hb.bindings_lt hw hl
    refine ⟨hlt,fun fuel ev depth idx herr => ?_⟩
    obtain ⟨device,idx',heq,hl,hge⟩ :=
      (c.engine.process_safe π fuel ev depth).misbound _ herr (by simp)
    exact absurd (hlt device idx' hl).1 (not_lt.mpr hge)

/-- Libraries that know one timezone, and builders of virtual adapters. -/
def plainLibraries : Libraries where
  knownTimezone tz := tz == "UTC"
  cronError _ := none
  mergeError _ := ""
  decodeError _ _ := ""

def plainBuilders : Builders VirtualDeviceAdapter MockNorthbound where
  build _ _ _ := {}
  buildNorthbound _ _ _ _ := some ⟨[],[],[]⟩
  clock _ _ _ := {}

/-- A config that declares one switch, bound to the adapter of the given type. -/
def lampConfig (kind : String) : RawConfig where
  system := .default
  adapters := .single "bus" ⟨kind,.mapping []⟩
  devices := .single "lamp" ⟨"bus",none,none,["switch"],.empty,none,none,none⟩
  scenes := .empty
  schedules := .empty
  rules := .empty

/-- With a virtual adapter the lamp is well bound. -/
theorem virtual_lamp_in_range : ∃ cfg e,
    resolve plainLibraries .identity (lampConfig "virtual") = .ok cfg ∧
      buildEngineFull plainBuilders cfg = some e ∧ ∀ d ∈ cfg.devices, WellBound plainBuilders cfg e d := by
  obtain ⟨cfg,h⟩ : ∃ cfg, resolve plainLibraries .identity (lampConfig "virtual") = .ok cfg := ⟨_,rfl⟩
  obtain ⟨e,he,-,hiff⟩ := bindings_in_range plainBuilders h
  refine ⟨cfg,e,h,he,(hiff.mpr ?_).1⟩
  rintro ⟨device,-,adapter,ha,-,hk⟩
  have : adapter = ("bus",⟨"virtual",.mapping []⟩) := by simpa [lampConfig] using ha
  rw [this] at hk
  exact absurd hk (by decide)

/-- With a northbound one the config is accepted all the same: the lamp gets the sentinel, and the
first request for it indexes out of bounds. -/
theorem northbound_lamp_panics : ∃ cfg e,
    resolve plainLibraries .identity (lampConfig "mock_northbound") = .ok cfg ∧
      buildEngineFull plainBuilders cfg = some e ∧
      e.deviceToAdapter.lookup ⟨0⟩ = some noSlot ∧ ¬noSlot < e.adapters.size ∧
      (∃ d ∈ cfg.devices, ¬WellBound plainBuilders cfg e d) ∧
      e.inject .identity 2 (.requestedChange ⟨0⟩ .toggle) = .error (.noAdapter noSlot) := by
  obtain ⟨cfg,e,h,he,hl,hs,hd,hp⟩ : ∃ cfg e,
      resolve plainLibraries .identity (lampConfig "mock_northbound") = .ok cfg ∧
        buildEngineFull plainBuilders cfg = some e ∧
        e.deviceToAdapter.lookup ⟨0⟩ = some noSlot ∧ e.adapters.size = 2 ∧
        (∃ d ∈ cfg.devices, d.id = ⟨0⟩) ∧
        e.inject .identity 2 (.requestedChange ⟨0⟩ .toggle) = .error (.noAdapter noSlot) :=
    ⟨_,_,rfl,rfl,rfl,rfl,⟨_,List.mem_singleton_self _,rfl⟩,rfl⟩
  obtain ⟨d,hm,hid⟩ := hd
  refine ⟨cfg,e,h,he,hl,by rw [hs]; decide,⟨d,hm,?_⟩,hp⟩
  rintro ⟨idx,-,-,hl',-,hne,-⟩
  rw [hid,hl] at hl'
  exact hne (Option.some.inj hl').symm

end Domiform
