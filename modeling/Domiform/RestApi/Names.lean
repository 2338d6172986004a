import Domiform.Bindings
import Domiform.Compile.Naming
import Domiform.RestApi.Directory

/-! Names on the wire. The directory translates the names of a config to ids and back; its table of
devices also files the synthetic clock, under a name that a device may have too. -/
namespace Domiform
open Library

/-- `DeviceEntry::action`. -/
def DeviceEntry.action (entry : DeviceEntry) (name : String) : Option ActionId :=
  (entry.events.find? fun e => e.1 == name).map Prod.snd

/-- One scene as the API presents it. -/
structure SceneEntry where
  id : SceneId
  name : String
  commands : List Command

def SceneEntry.ofScene (s : CompiledScene) : SceneEntry := ⟨s.id,s.name,s.commands⟩

/-- The whole `Directory`: what it lists, and what it finds by name. -/
structure NamedDirectory extends Directory where
  systemName : Option String
  timezone : String
  scenes : List SceneEntry
  rules : List Rule
  schedules : List (ScheduleId × String)
  deviceByName : HashMap String DeviceId
  sceneByName : HashMap String SceneId
  ruleByName : HashMap String RuleId

namespace NamedDirectory

/-- Collected into a map, the last entry of a name stays. -/
def byName {α K : Type} (name : α → String) (id : α → K) (xs : List α) : HashMap String K :=
  (xs.map fun x => (name x,id x)).foldl (fun m x => m.insert x.1 x.2) ∅

/-- `Directory::from_config`. -/
def fromConfig (cfg : CompiledConfig) : NamedDirectory where
  toDirectory := .fromConfig cfg
  systemName := cfg.system.name
  timezone := cfg.system.timezone
  scenes := cfg.scenes.map SceneEntry.ofScene
  rules := cfg.rules
  schedules := cfg.schedules.map fun s => (s.id,s.name)
  deviceByName := byName DeviceEntry.name DeviceEntry.id (Directory.fromConfig cfg).devices
  sceneByName := byName SceneEntry.name SceneEntry.id (cfg.scenes.map SceneEntry.ofScene)
  ruleByName := byName Rule.name Rule.id cfg.rules

section Lookups
variable (dir : NamedDirectory)

def device (name : String) : Option DeviceEntry :=
  (dir.deviceByName.lookup name).bind fun id => dir.devices.find? fun d => d.id == id

def scene (name : String) : Option SceneEntry :=
  (dir.sceneByName.lookup name).bind fun id => dir.scenes.find? fun s => s.id == id

def rule (name : String) : Option Rule :=
  (dir.ruleByName.lookup name).bind fun id => dir.rules.find? fun r => r.id == id

/-- An id the config does not know is rendered as it is, and never fails. -/
def deviceName (id : DeviceId) : String :=
  ((dir.devices.find? fun d => d.id == id).map DeviceEntry.name).getD
    ("device#" ++ toString id.val)

def sceneName (id : SceneId) : String :=
  ((dir.scenes.find? fun s => s.id == id).map SceneEntry.name).getD ("scene#" ++ toString id.val)

def ruleName (id : RuleId) : String :=
  ((dir.rules.find? fun r => r.id == id).map Rule.name).getD ("rule#" ++ toString id.val)

def scheduleName (id : ScheduleId) : String :=
  ((dir.schedules.find? fun s => s.1 == id).map Prod.snd).getD ("schedule#" ++ toString id.val)

/-- The local name of a declared event. -/
def actionName (device : DeviceId) (action : ActionId) : String :=
  (((dir.devices.find? fun d => d.id == device).bind fun d =>
    d.events.find? fun e => e.2 == action).map Prod.fst).getD ("action#" ++ toString action.val)

end Lookups

section Tables
variable {α K : Type} {name : α → String} {id : α → K} {xs : List α}

/-- Under names of their own, all entries are filed. -/
theorem lookup_byName (nodup : (xs.map name).Nodup) {x : α} (hx : x ∈ xs) :
    (byName name id xs).lookup (name x) = some (id x) := by
  have hn : ((xs.map fun x => (name x,id x)).map Prod.fst).Nodup := by
    rw [List.map_map]
    exact nodup
  rw [byName,HashMap.lookup_foldl_insert hn]
  exact .inl (List.mem_map_of_mem (f := fun x => (name x,id x)) hx)

theorem exists_of_lookup_byName (nodup : (xs.map name).Nodup) {n : String} {i : K}
    (h : (byName name id xs).lookup n = some i) : ∃ x ∈ xs, name x = n ∧ id x = i := by
  have hn : ((xs.map fun x => (name x,id x)).map Prod.fst).Nodup := by
    rw [List.map_map]
    exact nodup
  rw [byName,HashMap.lookup_foldl_insert hn] at h
  rcases h with h | ⟨-,h⟩
  · obtain ⟨x,hx,he⟩ := List.mem_map.mp h
    obtain ⟨hname,hid⟩ := Prod.mk.inj he
    exact ⟨x,hx,hname,hid⟩
  · cases h

/-- The last entry is found, and does not hide one of another name. -/
theorem lookup_byName_concat (last : α) (n : String) : (byName name id (xs ++ [last])).lookup n =
    if n = name last then some (id last) else (byName name id xs).lookup n := by
  rw [byName,List.map_append,List.foldl_append]
  exact HashMap.lookup_insert _ _ _ _

end Tables

/-- Names lead to entries and ids lead back to the names, for everything a config declares and for
the clock. -/
structure Inverse (dir : NamedDirectory) (cfg : CompiledConfig) : Prop where
  device : ∀ d ∈ cfg.devices, (dir.device d.name).map DeviceEntry.id = some d.id ∧
    dir.deviceName d.id = d.name
  event : ∀ d ∈ cfg.devices, ∀ e ∈ d.events,
    ((dir.device d.name).bind fun entry => entry.action e.name) = some e.id ∧
      dir.actionName d.id e.id = e.name
  scene : ∀ s ∈ cfg.scenes, (dir.scene s.name).map SceneEntry.id = some s.id ∧
    dir.sceneName s.id = s.name
  rule : ∀ r ∈ cfg.rules, (dir.rule r.name).map Rule.id = some r.id ∧ dir.ruleName r.id = r.name
  clock : dir.device clockDeviceName = some (.clock cfg.clockDevice) ∧
    dir.deviceName cfg.clockDevice = clockDeviceName

section Accepted
variable {lib : Libraries} {π : HashOrder} {raw : RawConfig} {cfg : CompiledConfig}

theorem mem_devices_ofDevice {d : DeviceDef} (hd : d ∈ cfg.devices) :
    .ofDevice d ∈ (Directory.fromConfig cfg).devices :=
  List.mem_append_left _ (List.mem_map_of_mem hd)

theorem mem_devices_clock : .clock cfg.clockDevice ∈ (Directory.fromConfig cfg).devices :=
  List.mem_append_right _ (List.mem_singleton_self _)

/-- The id of the clock is past those of the devices. -/
theorem id_ne_clockDevice (accepted : resolve lib π raw = .ok cfg) {d : DeviceDef}
    (hd : d ∈ cfg.devices) : d.id ≠ cfg.clockDevice := by
  obtain ⟨hids,-,hc,-⟩ := devices_of_accepted accepted
  have hm : d.id ∈ cfg.devices.map DeviceDef.id := List.mem_map_of_mem hd
  rw [hids] at hm
  obtain ⟨i,hi,he⟩ := List.mem_map.mp hm
  rw [hc,← he]
  rintro ⟨⟩
  exact absurd hi (by simp)

theorem entry_ids_nodup (accepted : resolve lib π raw = .ok cfg) :
    ((Directory.fromConfig cfg).devices.map DeviceEntry.id).Nodup := by
  have hm : (cfg.devices.map DeviceEntry.ofDevice).map DeviceEntry.id =
      cfg.devices.map DeviceDef.id := by
    rw [List.map_map]
    rfl
  rw [Directory.fromConfig,List.map_append,hm,List.nodup_append]
  refine ⟨device_ids_nodup accepted,List.nodup_singleton _,?_⟩
  intro i hi j hj
  obtain ⟨d,hd,rfl⟩ := List.mem_map.mp hi
  rw [List.mem_singleton.mp hj]
  exact id_ne_clockDevice accepted hd

theorem configured_names_nodup (accepted : resolve lib π raw = .ok cfg) :
    ((cfg.devices.map DeviceEntry.ofDevice).map DeviceEntry.name).Nodup := by
  rw [List.map_map]
  exact device_names_nodup accepted

theorem sceneEntries_nodup (accepted : resolve lib π raw = .ok cfg) :
    ((cfg.scenes.map SceneEntry.ofScene).map SceneEntry.name).Nodup ∧
      ((cfg.scenes.map SceneEntry.ofScene).map SceneEntry.id).Nodup := by
  rw [List.map_map,List.map_map]
  exact ⟨scene_names_nodup accepted,scene_ids_nodup accepted⟩

/-- An entry is found by its id. -/
theorem find_entry (accepted : resolve lib π raw = .ok cfg) {entry : DeviceEntry}
    (he : entry ∈ (Directory.fromConfig cfg).devices) :
    (fromConfig cfg).devices.find? (fun d => d.id == entry.id) = some entry :=
  find?_of_nodup (entry_ids_nodup accepted) he

/-- The name of the clock is the clock's; any other is that of the configured devices. -/
theorem lookup_deviceByName (name : String) : (fromConfig cfg).deviceByName.lookup name =
    if name = clockDeviceName then some cfg.clockDevice
    else (byName DeviceEntry.name DeviceEntry.id
      (cfg.devices.map DeviceEntry.ofDevice)).lookup name :=
  lookup_byName_concat (DeviceEntry.clock cfg.clockDevice) name

/-- Whatever it shares its name with, the clock is reachable. -/
theorem device_clock (accepted : resolve lib π raw = .ok cfg) :
    (fromConfig cfg).device clockDeviceName = some (.clock cfg.clockDevice) := by
  rw [device,lookup_deviceByName,if_pos rfl,Option.bind_some]
  exact find_entry accepted mem_devices_clock

theorem device_of_ne (accepted : resolve lib π raw = .ok cfg) {d : DeviceDef}
    (hd : d ∈ cfg.devices) (other : d.name ≠ clockDeviceName) :
    (fromConfig cfg).device d.name = some (.ofDevice d) := by
  have hl := @lookup_byName _ _ _ DeviceEntry.id _ (configured_names_nodup accepted) _
    (List.mem_map_of_mem hd)
  rw [device,lookup_deviceByName,if_neg other]
  refine Option.bind_eq_some_iff.mpr ⟨d.id,hl,?_⟩
  exact find_entry accepted (mem_devices_ofDevice hd)

/-- A device is found by its id, whatever it is called. -/
theorem find_ofDevice (accepted : resolve lib π raw = .ok cfg) {d : DeviceDef}
    (hd : d ∈ cfg.devices) :
    (fromConfig cfg).devices.find? (fun x => x.id == d.id) = some (.ofDevice d) :=
  find_entry accepted (mem_devices_ofDevice hd)

theorem deviceName_ofDevice (accepted : resolve lib π raw = .ok cfg) {d : DeviceDef}
    (hd : d ∈ cfg.devices) : (fromConfig cfg).deviceName d.id = d.name := by
  rw [deviceName,find_ofDevice accepted hd]
  rfl

theorem deviceName_clock (accepted : resolve lib π raw = .ok cfg) :
    (fromConfig cfg).deviceName cfg.clockDevice = clockDeviceName := by
  have hf : (fromConfig cfg).devices.find? (fun x => x.id == cfg.clockDevice) =
    some (.clock cfg.clockDevice) := find_entry accepted mem_devices_clock
  rw [deviceName,hf]
  rfl

/-- The name of an event leads to its id. -/
theorem action_ofDevice (accepted : resolve lib π raw = .ok cfg) {d : DeviceDef}
    (hd : d ∈ cfg.devices) {e : DeviceEvent} (he : e ∈ d.events) :
    (DeviceEntry.ofDevice d).action e.name = some e.id := by
  have hn : ((d.events.map fun e => (e.name,e.id)).map Prod.fst).Nodup := by
    rw [List.map_map]
    exact event_names_nodup accepted d hd
  have hm : (e.name,e.id) ∈ d.events.map fun e => (e.name,e.id) :=
    List.mem_map_of_mem (f := fun e => (e.name,e.id)) he
  have hf := find?_of_nodup hn hm
  rw [DeviceEntry.action,DeviceEntry.ofDevice]
  exact Option.map_eq_some_iff.mpr ⟨_,hf,rfl⟩

/-- The id of an event leads back to its name. -/
theorem actionName_ofDevice (accepted : resolve lib π raw = .ok cfg) {d : DeviceDef}
    (hd : d ∈ cfg.devices) {e : DeviceEvent} (he : e ∈ d.events) :
    (fromConfig cfg).actionName d.id e.id = e.name := by
  have hn : ((d.events.map fun e => (e.name,e.id)).map Prod.snd).Nodup := by
    rw [List.map_map]
    exact event_ids_nodup accepted hd
  have hm : (e.name,e.id) ∈ d.events.map fun e => (e.name,e.id) :=
    List.mem_map_of_mem (f := fun e => (e.name,e.id)) he
  have hf : (DeviceEntry.ofDevice d).events.find? (fun x => x.2 == e.id) = some (e.name,e.id) :=
    find?_of_nodup hn hm
  rw [actionName,find_ofDevice accepted hd,Option.bind_some,hf]
  rfl

theorem scene_ofScene (accepted : resolve lib π raw = .ok cfg) {s : CompiledScene}
    (hs : s ∈ cfg.scenes) : (fromConfig cfg).scene s.name = some (.ofScene s) ∧
      (fromConfig cfg).sceneName s.id = s.name := by
  have hm : SceneEntry.ofScene s ∈ cfg.scenes.map SceneEntry.ofScene := List.mem_map_of_mem hs
  obtain ⟨hn,hi⟩ := sceneEntries_nodup accepted
  have hl : (fromConfig cfg).sceneByName.lookup s.name = some s.id := lookup_byName hn hm
  have hf : (fromConfig cfg).scenes.find? (fun x => x.id == s.id) = some (.ofScene s) :=
    find?_of_nodup hi hm
  rw [scene,hl,Option.bind_some,sceneName,hf]
  exact ⟨rfl,rfl⟩

theorem rule_of_mem (accepted : resolve lib π raw = .ok cfg) {r : Rule} (hr : r ∈ cfg.rules) :
    (fromConfig cfg).rule r.name = some r ∧ (fromConfig cfg).ruleName r.id = r.name := by
  have hl : (fromConfig cfg).ruleByName.lookup r.name = some r.id :=
    lookup_byName (rule_names_nodup accepted) hr
  have hf : (fromConfig cfg).rules.find? (fun x => x.id == r.id) = some r :=
    find?_of_nodup (rule_ids_nodup accepted) hr
  rw [rule,hl,Option.bind_some,ruleName,hf]
  exact ⟨rfl,rfl⟩

/-- A lookup by name finds an entry of that name. -/
theorem name_of_device (accepted : resolve lib π raw = .ok cfg) {n : String} {entry : DeviceEntry}
    (h : (fromConfig cfg).device n = some entry) : entry.name = n := by
  by_cases hn : n = clockDeviceName
  · subst hn
    rw [device_clock accepted] at h
    cases h
    rfl
  · obtain ⟨i,hl,hf⟩ := Option.bind_eq_some_iff.mp h
    rw [lookup_deviceByName,if_neg hn] at hl
    obtain ⟨x,hx,hname,hid⟩ := exists_of_lookup_byName (configured_names_nodup accepted) hl
    have found := find_entry accepted (List.mem_append_left _ hx)
    rw [hid,hf] at found
    cases found
    exact hname

theorem name_of_scene (accepted : resolve lib π raw = .ok cfg) {n : String} {entry : SceneEntry}
    (h : (fromConfig cfg).scene n = some entry) : entry.name = n := by
  obtain ⟨names,ids⟩ := sceneEntries_nodup accepted
  obtain ⟨i,hl,hf⟩ := Option.bind_eq_some_iff.mp h
  obtain ⟨x,hx,hname,rfl⟩ := exists_of_lookup_byName names hl
  cases hf.symm.trans (find?_of_nodup ids hx)
  exact hname

theorem name_of_rule (accepted : resolve lib π raw = .ok cfg) {n : String} {r : Rule}
    (h : (fromConfig cfg).rule n = some r) : r.name = n := by
  obtain ⟨i,hl,hf⟩ := Option.bind_eq_some_iff.mp h
  obtain ⟨x,hx,hname,rfl⟩ := exists_of_lookup_byName (rule_names_nodup accepted) hl
  cases hf.symm.trans (find?_of_nodup (rule_ids_nodup accepted) hx)
  exact hname

/-- The names and the ids of an accepted config are inverse to each other exactly when no device
takes the name of the clock. -/
theorem names_inverse_iff (accepted : resolve lib π raw = .ok cfg) :
    (fromConfig cfg).Inverse cfg ↔ ∀ d ∈ cfg.devices, d.name ≠ clockDeviceName := by
  constructor
  · intro h d hd same
    have hid := (h.device d hd).1
    rw [same,device_clock accepted] at hid
    exact id_ne_clockDevice accepted hd (Option.some.inj hid).symm
  · intro free
    refine ⟨?_,?_,?_,?_,?_⟩
    · intro d hd
      rw [device_of_ne accepted hd (free d hd)]
      exact ⟨rfl,deviceName_ofDevice accepted hd⟩
    · intro d hd e he
      rw [device_of_ne accepted hd (free d hd),Option.bind_some]
      exact ⟨action_ofDevice accepted hd he,actionName_ofDevice accepted hd he⟩
    · intro s hs
      obtain ⟨hl,hn⟩ := scene_ofScene accepted hs
      rw [hl]
      exact ⟨rfl,hn⟩
    · intro r hr
      obtain ⟨hl,hn⟩ := rule_of_mem accepted hr
      rw [hl]
      exact ⟨rfl,hn⟩
    · exact ⟨device_clock accepted,deviceName_clock accepted⟩

end Accepted
/-- A lamp of the given name, with an event. -/
def tickingConfig (name : String) : RawConfig where
  system := .default
  adapters := .single "bus" ⟨"virtual",.mapping []⟩
  devices := .single name ⟨"bus",none,none,["switch"],.single "chime" "1",none,none,none⟩
  scenes := .empty
  schedules := .empty
  rules := .empty

theorem lamp_names_inverse : ∃ cfg, resolve plainLibraries .identity (tickingConfig "lamp") = .ok cfg ∧
    (fromConfig cfg).Inverse cfg := by
  obtain ⟨cfg,h,free⟩ : ∃ cfg, resolve plainLibraries .identity (tickingConfig "lamp") = .ok cfg ∧
    ∀ d ∈ cfg.devices, d.name ≠ clockDeviceName := ⟨_,rfl,by decide⟩
  exact ⟨cfg,h,(names_inverse_iff h).mpr free⟩

/-- The name of the lamp leads to the clock, which declares no event. -/
theorem clock_hides_a_device : ∃ cfg d e,
    resolve plainLibraries .identity (tickingConfig "clock") = .ok cfg ∧ d ∈ cfg.devices ∧
      d.name = "clock" ∧ d.id = ⟨0⟩ ∧ e ∈ d.events ∧
      ((fromConfig cfg).device d.name).map DeviceEntry.id = some ⟨1⟩ ∧
      (((fromConfig cfg).device d.name).bind fun entry => entry.action e.name) = none :=
  ⟨_,_,_,rfl,List.mem_cons_self,rfl,rfl,List.mem_cons_self,rfl,rfl⟩

end NamedDirectory
end Domiform
