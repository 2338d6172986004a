import Domiform.Compile.Resolve

/-! Accepted configs. What the resolver guarantees of the graph it hands over: ids are positions,
every name was looked up, and every body was lowered in full. -/
namespace Domiform
open Library

variable {lib : Libraries} {π : HashOrder} {raw : RawConfig} {cfg : CompiledConfig}

/-- What a command line can lower to: a command for a device, or one of the three kinds that name
a scene or a timer. -/
inductive Lowered (lw : Lowerer) (verb : String) (payload : Value) : Command → Prop
  | device (cmd : Command) (target : cmd.targetDevice.isSome) : Lowered lw verb payload cmd
  | scene (name : String) (scene : SceneId) (verb_eq : verb = "activate_scene")
      (named : payload.asStr = some name) (known : lw.sceneIndex.lookup name = some scene) :
      Lowered lw verb payload (.activateScene scene)
  | schedule (merged : Value) (timer : RawScheduleTimer) (after : Millis)
      (verb_eq : verb = "schedule_timer") (expanded : payload.applyMerge = .ok merged)
      (decoded : RawScheduleTimer.decode merged = some timer) :
      Lowered lw verb payload (.scheduleTimer ⟨timer.key⟩ after)
  | cancel (key : String) (verb_eq : verb = "cancel_timer") (named : payload.asStr = some key) :
      Lowered lw verb payload (.cancelTimer ⟨key⟩)

namespace Lowerer

theorem asName_eq_some {v : Value} {node context name : String}
    (h : (asName v node context).value = some name) : v.asStr = some name := by
  simp only [asName] at h
  split at h
  · rename_i s hs
    cases h
    exact hs
  · cases h

theorem payload_eq_some {α : Type} {lw : Lowerer} {decode : Value → Option α} {v : Value}
    {node context : String} {a : α} (h : (lw.payload decode v node context).value = some a) :
    ∃ merged, v.applyMerge = .ok merged ∧ decode merged = some a := by
  simp only [payload] at h
  split at h
  · cases h
  · rename_i merged hm
    split at h
    · rename_i t ht
      cases h
      exact ⟨merged,hm,ht⟩
    · cases h

theorem singleEntry_eq_some {v : Value} {node context : String} {entry : String × Value}
    (h : (singleEntry v node context).value = some entry) :
    ∃ k, v = .mapping [(k,entry.2)] ∧ k.asStr = some entry.1 := by
  simp only [singleEntry] at h
  split at h
  · rename_i k payload
    split at h
    · rename_i verb hk
      cases h
      exact ⟨k,rfl,hk⟩
    · cases h
  · cases h

theorem commandOf_lowered (lw : Lowerer) (verb context : String) (payload : Value) :
    Checked.Ensures (Lowered lw verb payload) (lw.commandOf verb payload context) := by
  rw [commandOf]
  -- the verbs that command a device, in order, then the three that do not
  refine .ite (fun _ => .bind fun _ _ => .bind fun _ _ => .bind fun _ _ => .pure (.device _ rfl))
    fun _ => ?_
  refine .ite (fun _ => .bind fun _ _ => .bind fun _ _ => .bind fun _ _ => .pure (.device _ rfl))
    fun _ => ?_
  refine .ite (fun _ => .bind fun _ _ => .bind fun _ _ => .bind fun _ _ => .bind fun _ _ =>
    .pure (.device _ rfl)) fun _ => ?_
  refine .ite (fun _ => .bind fun _ _ => .bind fun _ _ => .bind fun _ _ => .pure (.device _ rfl))
    fun _ => ?_
  refine .ite (fun _ => .bind fun _ _ => .bind fun _ _ => .bind fun _ _ => .pure (.device _ rfl))
    fun _ => ?_
  refine .ite (fun _ => .bind fun _ _ => .bind fun _ _ => .bind fun _ _ => .bind fun _ _ =>
    .bind fun _ _ => .pure (.device _ rfl)) fun _ => ?_
  refine .ite (fun _ => .bind fun _ _ => .bind fun _ _ => .bind fun _ _ => .bind fun _ _ =>
    .bind fun _ _ => .pure (.device _ rfl)) fun _ => ?_
  refine .ite (fun hv => .bind fun name hn => ?_) fun _ => ?_
  · split
    · rename_i scene hs
      exact .bind fun _ _ => .pure (.scene name scene hv (asName_eq_some hn) hs)
    · exact .fail
  refine .ite (fun hv => .bind fun timer ht => .bind fun _ _ => .bind fun after _ => ?_) fun _ => ?_
  · obtain ⟨merged,hm,hd⟩ := payload_eq_some ht
    exact .pure (.schedule merged timer after hv hm hd)
  refine .ite (fun hv => .bind fun key hk => .bind fun _ _ =>
    .pure (.cancel key hv (asName_eq_some hk))) fun _ => ?_
  exact .ite (fun _ => .bind fun _ _ => .bind fun _ _ => .bind fun _ _ => .pure (.device _ rfl))
    fun _ => .fail

/-- A command line that lowers is a verb with its payload. -/
theorem command_lowered {lw : Lowerer} {context : String} {v : Value} {cmd : Command}
    (h : (lw.command context v).value = some cmd) :
    ∃ k verb payload, v = .mapping [(k,payload)] ∧ k.asStr = some verb ∧
      Lowered lw verb payload cmd := by
  obtain ⟨⟨verb,payload⟩,he,hc⟩ := Checked.value_bind_eq_some.mp h
  obtain ⟨k,hv,hk⟩ := singleEntry_eq_some he
  exact ⟨k,verb,payload,hv,hk,commandOf_lowered lw verb context payload cmd hc⟩

end Lowerer

namespace Resolve

/-- Appending a device keeps positions as ids; every device comes from an entry whose adapter is
known, and every such entry becomes one. -/
structure DevicePass.Resolved (adapterIndex : HashMap String ℕ) (entries : List (String × RawDevice))
    (pass : DevicePass) : Prop where
  ids : pass.devices.map DeviceDef.id = (List.range pass.devices.length).map DeviceId.mk
  sound : ∀ d ∈ pass.devices, ∃ entry ∈ entries, entry.1 = d.name ∧
    adapterIndex.lookup entry.2.adapter = some d.adapter
  complete : ∀ entry ∈ entries, ∀ adapter, adapterIndex.lookup entry.2.adapter = some adapter →
    ∃ d ∈ pass.devices, d.name = entry.1 ∧ d.adapter = adapter
  fits : pass.devices.length ≤ entries.length

theorem resolveDevices_resolved (adapterIndex : HashMap String ℕ)
    (entries : List (String × RawDevice)) :
    (resolveDevices adapterIndex entries).Resolved adapterIndex entries := by
  induction entries using List.reverseRecOn with
  | nil => exact ⟨rfl,by simp [resolveDevices],by simp,le_rfl⟩
  | append_singleton entries entry ih =>
    rw [resolveDevices_concat]
    generalize resolveDevices adapterIndex entries = pass at ih ⊢
    obtain ⟨name,raw⟩ := entry
    rw [resolveDevice]
    dsimp only
    cases hl : adapterIndex.lookup raw.adapter with
    | none =>
      refine ⟨ih.ids,fun d hd => ?_,fun entry hm adapter ha => ?_,?_⟩
      · obtain ⟨entry,hm,h⟩ := ih.sound d hd
        exact ⟨entry,List.mem_append_left _ hm,h⟩
      · rcases List.mem_append.mp hm with hm | hm
        · exact ih.complete entry hm adapter ha
        · rw [List.mem_singleton.mp hm] at ha
          rw [hl] at ha
          cases ha
      · have := ih.fits
        simp only [List.length_append]
        omega
    | some adapter =>
      refine ⟨?_,fun d hd => ?_,fun entry hm a ha => ?_,?_⟩
      · simp [ih.ids,List.range_succ]
      · rcases List.mem_append.mp hd with hd | hd
        · obtain ⟨entry,hm,h⟩ := ih.sound d hd
          exact ⟨entry,List.mem_append_left _ hm,h⟩
        · rw [List.mem_singleton.mp hd]
          exact ⟨(name,raw),by simp,rfl,hl⟩
      · rcases List.mem_append.mp hm with hm | hm
        · obtain ⟨d,hd,h⟩ := ih.complete entry hm a ha
          exact ⟨d,List.mem_append_left _ hd,h⟩
        · rw [List.mem_singleton.mp hm] at ha ⊢
          rw [hl] at ha
          cases ha
          exact ⟨_,List.mem_append_right _ (List.mem_singleton_self _),rfl,rfl⟩
      · have := ih.fits
        simp only [List.length_append,List.length_singleton]
        omega

end Resolve

open Resolve

/-- Acceptance, inverted: no finding was an error, and the graph is what the passes produced. -/
theorem resolve_eq_ok (h : resolve lib π raw = .ok cfg) :
    (∀ d ∈ diagnostics lib raw π, d.isError = false) ∧
      cfg.adapters = adapters raw ∧ cfg.devices = (devicePass raw).devices ∧
      cfg.scenes = scenes lib raw ∧ cfg.rules = rules lib raw ∧
      cfg.clockDevice = clockDevice raw := by
  rw [resolve] at h
  split_ifs at h with hd
  cases h
  refine ⟨fun d hm => ?_,rfl,rfl,rfl,rfl,rfl⟩
  rw [Bool.not_eq_true,List.any_eq_false] at hd
  simpa using hd d hm

/-- A name in the adapter section has its position as index. -/
theorem lookup_adapterIndex (raw : RawConfig) (name : String) (i : ℕ) :
    (adapterIndex raw).lookup name = some i ↔ raw.adapters.names[i]? = some name := by
  rw [adapterIndex,HashMap.lookup_ofKeys raw.adapters.names_nodup]
  simp

/-- The scene index numbers the scenes by position. -/
theorem lookup_sceneIndex (raw : RawConfig) (name : String) (scene : SceneId) :
    (sceneIndex raw).lookup name = some scene ↔ raw.scenes.names[scene.val]? = some name := by
  rw [sceneIndex,HashMap.lookup_ofKeys raw.scenes.names_nodup]
  constructor
  · rintro ⟨i,hi,rfl⟩
    exact hi
  · exact fun hi => ⟨scene.val,hi,rfl⟩

/-- A rule carries its position as id. -/
theorem id_of_lowerRule {lw : Lowerer} {name : String} {id : ℕ} {raw : RawRule} {rule : Rule}
    (h : (lowerRule lw name id raw).value = some (some rule)) : rule.id = ⟨id⟩ := by
  simp only [lowerRule] at h
  split at h
  · cases h
    rfl
  · cases h

theorem zipIdx_snd_pairwise {α : Type} (xs : List α) :
    xs.zipIdx.Pairwise fun x y => x.2 ≠ y.2 := by
  have hn : (xs.zipIdx.map Prod.snd).Nodup := by
    rw [List.zipIdx_map_snd]
    exact List.nodup_range'
  exact List.pairwise_map.mp hn

/-- No two rules share an id. -/
theorem rules_nodup (lib : Libraries) (raw : RawConfig) :
    ((rules lib raw).map Rule.id).Nodup := by
  rw [rules,lowerRules,Checked.collect,Option.getD_some,List.filterMap_filterMap,List.Nodup,
    List.pairwise_map,List.pairwise_filterMap]
  apply (zipIdx_snd_pairwise raw.rules.entries).imp
  intro x y hne r hr r' hr' heq
  obtain ⟨o,ho,rfl⟩ := Option.bind_eq_some_iff.mp hr
  obtain ⟨o',ho',rfl⟩ := Option.bind_eq_some_iff.mp hr'
  rw [id_of_lowerRule ho,id_of_lowerRule ho'] at heq
  exact hne (congrArg RuleId.val heq)

/-- A compiled rule was lowered from an entry of the file. -/
theorem mem_rules {rule : Rule} (h : rule ∈ rules lib raw) : ∃ entry ∈ raw.rules.entries, ∃ i,
    (lowerRule (lowerer lib raw) entry.1 i entry.2).value = some (some rule) := by
  rw [rules,lowerRules,Checked.collect,Option.getD_some,List.filterMap_filterMap] at h
  obtain ⟨x,hx,hr⟩ := List.mem_filterMap.mp h
  obtain ⟨o,ho,rfl⟩ := Option.bind_eq_some_iff.mp hr
  exact ⟨x.1,List.fst_mem_of_mem_zipIdx hx,x.2,ho⟩

/-- What a part of a rule noted, the rule noted. -/
theorem notes_lowerRule {lw : Lowerer} {name : String} {id : ℕ} {raw : RawRule} {n : Note}
    (hn : n ∈ (lw.trigger (ruleContext name) raw.trigger).notes ∨
      (∃ v, raw.condition = some v ∧ n ∈ (lw.condition (ruleContext name) v).notes) ∨
      n ∈ (lw.commands (ruleContext name) raw.commands).notes) :
    n ∈ (lowerRule lw name id raw).notes := by
  have part {c : Lower Condition}
      (hc : ∀ v, raw.condition = some v → c = lw.condition (ruleContext name) v) :
      n ∈ (lw.trigger (ruleContext name) raw.trigger).notes ++ c.notes ++
        (lw.commands (ruleContext name) raw.commands).notes := by
    rcases hn with hn | ⟨v,hv,hn⟩ | hn
    · exact List.mem_append_left _ (List.mem_append_left _ hn)
    · exact List.mem_append_left _ (List.mem_append_right _ (hc v hv ▸ hn))
    · exact List.mem_append_right _ hn
  unfold lowerRule
  dsimp only
  split
  · exact List.mem_append_left _ (part fun v hv => by rw [hv])
  · exact part fun v hv => by rw [hv]

/-- Its commands are what its lines lower to. -/
theorem commands_of_lowerRule {lw : Lowerer} {name : String} {id : ℕ} {raw : RawRule} {rule : Rule}
    (h : (lowerRule lw name id raw).value = some (some rule)) {c : Command} (hc : c ∈ rule.commands) :
    ∃ v ∈ raw.commands, (lw.command (ruleContext name) v).value = some c := by
  simp only [lowerRule] at h
  split at h
  · rename_i hcommands
    cases h
    exact (Checked.mem_collect hcommands).mp hc
  · cases h

/-- The body of a scene is what its lines lower to. -/
theorem mem_scenes {s : CompiledScene} : s ∈ scenes lib raw ↔ ∃ body,
    raw.scenes.entries[s.id.val]? = some (s.name,body) ∧
      s.commands = body.filterMap fun v =>
        ((lowerer lib raw).command (sceneContext s.name) v).value := by
  rw [scenes,List.mem_map]
  constructor
  · rintro ⟨⟨⟨name,body⟩,i⟩,hm,rfl⟩
    exact ⟨body,List.mem_zipIdx_iff_getElem?.mp hm,rfl⟩
  · rintro ⟨body,hm,hc⟩
    obtain ⟨⟨i⟩,name,commands⟩ := s
    refine ⟨((name,body),i),List.mem_zipIdx_iff_getElem?.mpr hm,?_⟩
    simp only at hc
    rw [hc]
    rfl

theorem scenes_nodup (lib : Libraries) (raw : RawConfig) :
    ((scenes lib raw).map CompiledScene.id).Nodup := by
  rw [scenes,List.map_map,List.Nodup,List.pairwise_map]
  apply (zipIdx_snd_pairwise raw.scenes.entries).imp
  exact fun hne heq => hne (congrArg SceneId.val heq)

/-- The type of every adapter of an accepted config is registered. -/
theorem plugin_of_accepted (h : resolve lib π raw = .ok cfg) :
    ∀ a ∈ cfg.adapters, ∃ p, a.plugin = some p := by
  obtain ⟨hd,ha,-⟩ := resolve_eq_ok h
  rw [ha]
  intro a hm
  obtain ⟨entry,he,rfl⟩ := List.mem_map.mp hm
  cases hp : Plugin.pluginFor entry.2.kind with
  | some p => exact ⟨p,hp⟩
  | none =>
    have := hd ((Diagnostic.error "E_UNKNOWN_ADAPTER_TYPE"
      ("unknown adapter type '" ++ entry.2.kind ++ "'")).place (adapterContext entry.1)) ?_
    · cases this
    · simp only [diagnostics,List.mem_append,List.mem_flatMap]
      refine .inl (.inl (.inl (.inl (.inl (.inl (.inl (.inl (.inl (.inl (.inl ⟨entry,he,?_⟩))))))))))
      simp [adapterDiagnostics,hp]

/-- No device is refused by the plugin of its adapter. -/
theorem validated_of_accepted (h : resolve lib π raw = .ok cfg) {d : DeviceDef}
    (hd : d ∈ cfg.devices) {x : AdapterDef} (hx : cfg.adapters[d.adapter]? = some x) {p : Plugin}
    (hp : x.plugin = some p) :
    ∀ diag ∈ p.validateDevice d (deviceContext d.name), diag.isError = false := by
  obtain ⟨hdiag,ha,hds,-⟩ := resolve_eq_ok h
  rw [hds] at hd
  rw [ha] at hx
  intro diag hm
  apply hdiag diag
  simp only [diagnostics,List.mem_append,List.mem_flatMap]
  refine .inl (.inl (.inl (.inl (.inl (.inr ⟨d,hd,?_⟩)))))
  simpa [addressDiagnostics,hx,hp] using hm

/-- Nothing lowering noted is an error. -/
theorem notes_of_accepted (h : resolve lib π raw = .ok cfg) :
    ∀ n ∈ notes lib raw, n.isError = false := by
  obtain ⟨hd,-⟩ := resolve_eq_ok h
  intro n hn
  cases n with
  | diagnostic d =>
    apply hd d
    simp only [diagnostics,List.mem_append,List.mem_filterMap]
    exact .inl (.inl (.inl (.inl (.inl (.inl (.inl (.inl (.inr ⟨.diagnostic d,hn,rfl⟩))))))))
  | _ => rfl

/-- Devices are numbered from 0 on, each names an adapter by position, and the clock comes last. -/
theorem devices_of_accepted (h : resolve lib π raw = .ok cfg) :
    cfg.devices.map DeviceDef.id = (List.range cfg.devices.length).map DeviceId.mk ∧
      (∀ d ∈ cfg.devices, d.adapter < cfg.adapters.length) ∧
      cfg.clockDevice = ⟨cfg.devices.length⟩ ∧ cfg.adapters.length < 2^32 := by
  obtain ⟨-,ha,hd,-,-,hc⟩ := resolve_eq_ok h
  have hr := resolveDevices_resolved (adapterIndex raw) raw.devices.entries
  rw [hd,hc,ha,adapters,List.length_map]
  refine ⟨hr.ids,fun d hm => ?_,rfl,raw.adapters.fits⟩
  obtain ⟨entry,-,-,hl⟩ := hr.sound d hm
  rw [lookup_adapterIndex] at hl
  simpa [NameMap.names] using (List.getElem?_eq_some_iff.mp hl).1

/-- The devices are listed in the order of their ids. -/
theorem devices_ordered (h : resolve lib π raw = .ok cfg) :
    cfg.devices.Pairwise fun d d' => d.id.val < d'.id.val := by
  have hids := (devices_of_accepted h).1
  have hp : (cfg.devices.map DeviceDef.id).Pairwise fun i j => i.val < j.val := by
    rw [hids,List.pairwise_map]
    exact List.pairwise_lt_range
  rwa [List.pairwise_map] at hp

theorem device_ids_nodup (h : resolve lib π raw = .ok cfg) : (cfg.devices.map DeviceDef.id).Nodup := by
  rw [(devices_of_accepted h).1]
  exact List.nodup_range.map fun a b h => congrArg DeviceId.val h

/-- A device is known by its id. -/
theorem eq_of_device_id (h : resolve lib π raw = .ok cfg) {d d' : DeviceDef}
    (hd : d ∈ cfg.devices) (hd' : d' ∈ cfg.devices) (he : d'.id = d.id) : d' = d :=
  List.inj_on_of_nodup_map (device_ids_nodup h) hd' hd he

/-- A device names the adapter it is filed under. -/
theorem adapter_of_device (h : resolve lib π raw = .ok cfg) {d : DeviceDef} (hd : d ∈ cfg.devices) :
    ∃ device ∈ raw.devices.entries, ∃ adapter ∈ raw.adapters.entries, device.1 = d.name ∧
      adapter.1 = device.2.adapter ∧ cfg.adapters[d.adapter]? = some (adapterDef adapter) := by
  obtain ⟨-,ha,hds,-⟩ := resolve_eq_ok h
  have hr := resolveDevices_resolved (adapterIndex raw) raw.devices.entries
  rw [hds] at hd
  obtain ⟨device,hm,hname,hl⟩ := hr.sound d hd
  rw [lookup_adapterIndex,NameMap.names,List.getElem?_map,Option.map_eq_some_iff] at hl
  obtain ⟨adapter,hg,hn⟩ := hl
  refine ⟨device,hm,adapter,List.mem_of_getElem? hg,hname,hn,?_⟩
  rw [ha,adapters,List.getElem?_map,hg]
  rfl

/-- A device whose adapter is configured is in the graph, filed under that adapter. -/
theorem device_of_entry (h : resolve lib π raw = .ok cfg) {device : String × RawDevice}
    (hd : device ∈ raw.devices.entries) {adapter : String × RawAdapter}
    (ha : adapter ∈ raw.adapters.entries) (named : adapter.1 = device.2.adapter) :
    ∃ d ∈ cfg.devices, d.name = device.1 ∧ cfg.adapters[d.adapter]? = some (adapterDef adapter) := by
  obtain ⟨-,has,hds,-⟩ := resolve_eq_ok h
  have hr := resolveDevices_resolved (adapterIndex raw) raw.devices.entries
  obtain ⟨i,hi⟩ := List.mem_iff_getElem?.mp ha
  have hl : (adapterIndex raw).lookup device.2.adapter = some i := by
    rw [lookup_adapterIndex,NameMap.names,List.getElem?_map,hi,← named]
    rfl
  obtain ⟨d,hm,hname,hidx⟩ := hr.complete device hd i hl
  rw [hds,has]
  refine ⟨d,hm,hname,?_⟩
  rw [hidx,adapters,List.getElem?_map,hi]
  rfl

end Domiform
