import Domiform.Compiled

/-! Names and ids. Within an accepted config a name of a section stands for one entry, and so does an
id; the events of one device are told apart by both. -/
namespace Domiform
open Library Resolve
variable {lib : Libraries} {π : HashOrder} {raw : RawConfig} {cfg : CompiledConfig}

/-- What matched entries carry over is the same list. -/
theorem map_eq_of_forall₂ {α β γ : Type} {R : α → β → Prop} {f : α → γ} {g : β → γ} {xs : List α}
    {ys : List β} (h : List.Forall₂ R xs ys) (hf : ∀ x y, R x y → g y = f x) :
    ys.map g = xs.map f := by
  induction h with
  | nil => rfl
  | cons hr _ ih => rw [List.map_cons,List.map_cons,hf _ _ hr,ih]

theorem map_zipIdx_names {V : Type} (m : NameMap V) :
    m.entries.zipIdx.map (fun x => x.1.1) = m.names := by
  rw [NameMap.names,← List.zipIdx_map_fst 0 m.entries,List.map_map]
  simp [Function.comp_def]

theorem device_names (h : resolve lib π raw = .ok cfg) :
    cfg.devices.map DeviceDef.name = raw.devices.names := by
  rw [← map_zipIdx_names]
  exact map_eq_of_forall₂ (devices_kept h) fun _ _ hd => hd.named

theorem scene_names (h : resolve lib π raw = .ok cfg) :
    cfg.scenes.map CompiledScene.name = raw.scenes.names := by
  rw [← map_zipIdx_names]
  exact map_eq_of_forall₂ (scenes_of_accepted h) fun _ _ hs => hs.1.named

theorem rule_names (h : resolve lib π raw = .ok cfg) :
    cfg.rules.map Rule.name = raw.rules.names := by
  rw [← map_zipIdx_names]
  exact map_eq_of_forall₂ (rules_of_accepted h) fun _ _ hr => hr.1.named

theorem device_names_nodup (h : resolve lib π raw = .ok cfg) :
    (cfg.devices.map DeviceDef.name).Nodup := by
  rw [device_names h]
  exact raw.devices.names_nodup

theorem scene_names_nodup (h : resolve lib π raw = .ok cfg) :
    (cfg.scenes.map CompiledScene.name).Nodup := by
  rw [scene_names h]
  exact raw.scenes.names_nodup

theorem rule_names_nodup (h : resolve lib π raw = .ok cfg) :
    (cfg.rules.map Rule.name).Nodup := by
  rw [rule_names h]
  exact raw.rules.names_nodup

theorem scene_ids_nodup (h : resolve lib π raw = .ok cfg) :
    (cfg.scenes.map CompiledScene.id).Nodup := by
  obtain ⟨-,-,-,hs,-⟩ := resolve_eq_ok h
  rw [hs]
  exact scenes_nodup lib raw

theorem rule_ids_nodup (h : resolve lib π raw = .ok cfg) : (cfg.rules.map Rule.id).Nodup := by
  obtain ⟨-,-,-,-,hr,-⟩ := resolve_eq_ok h
  rw [hr]
  exact rules_nodup lib raw

/-- A device is found under its name, and at its id. -/
theorem device_indexed (h : resolve lib π raw = .ok cfg) {d : DeviceDef} (hd : d ∈ cfg.devices) :
    (lowerer lib raw).deviceIndex.lookup d.name = some d.id ∧
      (lowerer lib raw).devices[d.id.val]? = some d := by
  obtain ⟨-,-,hds,-⟩ := resolve_eq_ok h
  rw [hds] at hd
  exact resolveDevices_named _ raw.devices.names_nodup hd

/-- Whatever the index leads to has the name looked up. -/
theorem resolveDevices_lookup (adapterIndex : HashMap String ℕ)
    (entries : List (String × RawDevice)) {name : String} {id : DeviceId}
    (h : (resolveDevices adapterIndex entries).deviceIndex.lookup name = some id) :
    ∃ d ∈ (resolveDevices adapterIndex entries).devices, d.name = name ∧ d.id = id := by
  induction entries using List.reverseRecOn with
  | nil => cases h
  | append_singleton entries entry ih =>
    rw [resolveDevices_concat] at h ⊢
    generalize resolveDevices adapterIndex entries = pass at ih h ⊢
    rw [resolveDevice] at h ⊢
    dsimp only at h ⊢
    cases hl : adapterIndex.lookup entry.2.adapter with
    | none =>
      rw [hl] at h
      exact ih h
    | some adapter =>
      rw [hl] at h
      dsimp only at h ⊢
      rw [HashMap.lookup_insert] at h
      split_ifs at h with hn
      · cases h
        exact ⟨_,List.mem_append_right _ (List.mem_singleton_self _),hn.symm,rfl⟩
      · obtain ⟨d,hd,hname,hid⟩ := ih h
        exact ⟨d,List.mem_append_left _ hd,hname,hid⟩

/-- Only its own name leads to a device. -/
theorem name_of_lookup (h : resolve lib π raw = .ok cfg) {d : DeviceDef} (hd : d ∈ cfg.devices)
    {name : String} (hl : (lowerer lib raw).deviceIndex.lookup name = some d.id) : name = d.name := by
  obtain ⟨d',hd',rfl,hid⟩ := resolveDevices_lookup _ _ hl
  obtain ⟨-,-,hds,-⟩ := resolve_eq_ok h
  rw [eq_of_device_id h hd (hds ▸ hd') hid]

/-- The events of a device have names of their own. -/
theorem event_names_nodup (h : resolve lib π raw = .ok cfg) :
    ∀ d ∈ cfg.devices, (d.events.map DeviceEvent.name).Nodup := by
  refine forall_mem_right (devices_kept h) fun x d hd => ?_
  have names : d.events.map DeviceEvent.name = x.1.2.events.names := by
    rw [NameMap.names,← hd.events,List.map_map]
    rfl
  rw [names]
  exact x.1.2.events.names_nodup

/-- The events of a device are numbered apart, wherever their numbers begin. -/
theorem resolveDevices_event_ids (adapterIndex : HashMap String ℕ)
    (entries : List (String × RawDevice)) :
    ∀ d ∈ (resolveDevices adapterIndex entries).devices, (d.events.map DeviceEvent.id).Nodup := by
  induction entries using List.reverseRecOn with
  | nil =>
    rintro d ⟨⟩
  | append_singleton entries entry ih =>
    rw [resolveDevices_concat]
    generalize resolveDevices adapterIndex entries = pass at ih ⊢
    rw [resolveDevice]
    dsimp only
    cases adapterIndex.lookup entry.2.adapter with
    | none => exact ih
    | some adapter =>
      intro d hd
      rcases List.mem_append.mp hd with hd | hd
      · exact ih d hd
      · cases List.mem_singleton.mp hd
        rw [List.map_map,List.Nodup,List.pairwise_map]
        apply (zipIdx_snd_pairwise entry.2.events.entries).imp
        intro x y hne heq
        exact hne (Nat.add_left_cancel (congrArg ActionId.val heq))

theorem event_ids_nodup (h : resolve lib π raw = .ok cfg) {d : DeviceDef} (hd : d ∈ cfg.devices) :
    (d.events.map DeviceEvent.id).Nodup := by
  obtain ⟨-,-,hds,-⟩ := resolve_eq_ok h
  rw [hds] at hd
  exact resolveDevices_event_ids _ _ d hd

/-- What is looked for by a key of its own is found. -/
theorem find?_of_nodup {α κ : Type} [DecidableEq κ] {f : α → κ} {xs : List α}
    (nodup : (xs.map f).Nodup) {x : α} (hx : x ∈ xs) : xs.find? (fun y => f y == f x) = some x := by
  cases hf : xs.find? fun y => f y == f x with
  | none => simpa using List.find?_eq_none.mp hf x hx
  | some y =>
    have hy : f y = f x := by simpa using List.find?_some hf
    rw [List.inj_on_of_nodup_map nodup (List.mem_of_find?_eq_some hf) hx hy]

end Domiform
