import Domiform.Expressible
import Domiform.RestApi.Describe

/-! What is rendered can be read back. Ids are written as names, each kind of node under a tag of its
own, so that the wire keeps apart whatever a config keeps apart. The code of an infrared command is
left out, and a device may not take the name of the clock. -/
namespace Domiform
open Library Resolve

namespace Json
variable {fs fs' : List (String × Json)}

/-- An object has what it was made of. -/
theorem get_ofFields (nodup : (fs.map Prod.fst).Nodup) (key : String) :
    (ofFields fs).get key = fs.lookup key := by
  rw [ofFields,get]
  induction fs using List.reverseRecOn with
  | nil => rfl
  | append_singleton fs f ih =>
    obtain ⟨name,value⟩ := f
    rw [List.map_append,List.nodup_append] at nodup
    rw [List.foldl_append,List.foldl_cons,List.foldl_nil,lookup_insertField,ih nodup.1,
      List.lookup_append]
    by_cases hk : key = name
    · have hnone : fs.lookup key = none := by
        rw [List.lookup_eq_none_iff]
        intro p hp
        have hne := nodup.2.2 p.1 (List.mem_map_of_mem hp) name (by simp)
        simpa [hk] using Ne.symm hne
      rw [if_pos hk,hnone,hk]
      simp
    · have hb : (key == name) = false := by simpa using hk
      rw [if_neg hk]
      simp [List.lookup_cons,hb]

theorem eq_of_lookup (keys : fs.map Prod.fst = fs'.map Prod.fst)
    (nodup : (fs.map Prod.fst).Nodup) (h : ∀ key, fs.lookup key = fs'.lookup key) : fs = fs' := by
  induction fs generalizing fs' with
  | nil =>
    cases fs' with
    | nil => rfl
    | cons f fs' => cases keys
  | cons f fs ih =>
    cases fs' with
    | nil => cases keys
    | cons f' fs' =>
      obtain ⟨k,v⟩ := f
      obtain ⟨k',v'⟩ := f'
      simp only [List.map_cons,List.cons.injEq] at keys
      obtain ⟨rfl,keys⟩ := keys
      rw [List.map_cons,List.nodup_cons] at nodup
      have hv := h k
      rw [lookup_cons,lookup_cons,if_pos rfl,if_pos rfl,Option.some.injEq] at hv
      rw [hv,ih keys nodup.2 fun key => ?_]
      by_cases hk : key = k
      · have hout : ∀ gs : List (String × Json), k ∉ gs.map Prod.fst → gs.lookup key = none := by
          intro gs hgs
          rw [List.lookup_eq_none_iff]
          intro p hp
          simpa [hk] using fun he : k = p.1 => hgs (he ▸ List.mem_map_of_mem hp)
        rw [hout fs nodup.1,hout fs' (keys ▸ nodup.1)]
      · have hrest := h key
        rwa [lookup_cons,lookup_cons,if_neg hk,if_neg hk] at hrest

/-- Objects of the same fields are equal in each of them. -/
theorem ofFields_injective (h : ofFields fs = ofFields fs')
    (keys : fs.map Prod.fst = fs'.map Prod.fst) (nodup : (fs.map Prod.fst).Nodup) : fs = fs' := by
  refine eq_of_lookup keys nodup fun key => ?_
  rw [← get_ofFields nodup,← get_ofFields (keys ▸ nodup),h]

theorem ofMillis_injective : Function.Injective ofMillis := by
  intro a b h
  cases a <;> cases b <;> simp_all [ofMillis,orNull]

end Json

/-- A color is read back from its three channels. -/
theorem Json.ofColor_injective {r g b r' g' b' : UInt8} (h : ofColor r g b = ofColor r' g' b') :
    r = r' ∧ g = g' ∧ b = b' := by
  have hf := ofFields_injective h rfl (by simp)
  simpa [UInt8.toNat_inj] using hf

namespace NamedDirectory
variable {lib : Libraries} {π : HashOrder} {raw : RawConfig} {cfg : CompiledConfig}

/-- A device of the config, or the clock. -/
def Listed (cfg : CompiledConfig) (id : DeviceId) : Prop :=
  (∃ d ∈ cfg.devices, d.id = id) ∨ id = cfg.clockDevice

/-- The names of what is listed are told apart, where no device is called the clock. -/
theorem deviceName_injOn (accepted : resolve lib π raw = .ok cfg)
    (free : ∀ d ∈ cfg.devices, d.name ≠ clockDeviceName) {i j : DeviceId} (hi : Listed cfg i)
    (hj : Listed cfg j) (h : (fromConfig cfg).deviceName i = (fromConfig cfg).deviceName j) :
    i = j := by
  rcases hi with ⟨d,hd,rfl⟩ | rfl <;> rcases hj with ⟨d',hd',rfl⟩ | rfl
  · rw [deviceName_ofDevice accepted hd,deviceName_ofDevice accepted hd'] at h
    rw [List.inj_on_of_nodup_map (device_names_nodup accepted) hd hd' h]
  · rw [deviceName_ofDevice accepted hd,deviceName_clock accepted] at h
    exact absurd h (free d hd)
  · rw [deviceName_ofDevice accepted hd',deviceName_clock accepted] at h
    exact absurd h.symm (free d' hd')
  · rfl

theorem actionName_injOn (accepted : resolve lib π raw = .ok cfg) {d : DeviceDef}
    (hd : d ∈ cfg.devices) {e e' : DeviceEvent} (he : e ∈ d.events) (he' : e' ∈ d.events)
    (h : (fromConfig cfg).actionName d.id e.id = (fromConfig cfg).actionName d.id e'.id) :
    e = e' := by
  rw [actionName_ofDevice accepted hd he,actionName_ofDevice accepted hd he'] at h
  exact List.inj_on_of_nodup_map (event_names_nodup accepted d hd) he he' h

theorem sceneName_injOn (accepted : resolve lib π raw = .ok cfg) {s s' : CompiledScene}
    (hs : s ∈ cfg.scenes) (hs' : s' ∈ cfg.scenes)
    (h : (fromConfig cfg).sceneName s.id = (fromConfig cfg).sceneName s'.id) : s = s' := by
  rw [(scene_ofScene accepted hs).2,(scene_ofScene accepted hs').2] at h
  exact List.inj_on_of_nodup_map (scene_names_nodup accepted) hs hs' h

theorem schedule_names (accepted : resolve lib π raw = .ok cfg) :
    cfg.schedules.map CompiledSchedule.name = raw.schedules.names := by
  rw [← map_zipIdx_names]
  exact map_eq_of_forall₂ (schedules_kept accepted) fun _ _ hs => hs.named

theorem schedule_ids_nodup (accepted : resolve lib π raw = .ok cfg) :
    (cfg.schedules.map CompiledSchedule.id).Nodup := by
  have hids : cfg.schedules.map CompiledSchedule.id =
      raw.schedules.entries.zipIdx.map fun x => ScheduleId.mk x.2 :=
    map_eq_of_forall₂ (schedules_kept accepted) fun _ _ hs => hs.numbered
  rw [hids,List.Nodup,List.pairwise_map]
  apply (zipIdx_snd_pairwise raw.schedules.entries).imp
  exact fun hne heq => hne (congrArg ScheduleId.val heq)

theorem scheduleName_of_mem (accepted : resolve lib π raw = .ok cfg) {s : CompiledSchedule}
    (hs : s ∈ cfg.schedules) : (fromConfig cfg).scheduleName s.id = s.name := by
  have hn : ((cfg.schedules.map fun s => (s.id,s.name)).map Prod.fst).Nodup := by
    rw [List.map_map]
    exact schedule_ids_nodup accepted
  have hm : (s.id,s.name) ∈ cfg.schedules.map fun s => (s.id,s.name) :=
    List.mem_map_of_mem (f := fun s : CompiledSchedule => (s.id,s.name)) hs
  have hf : (fromConfig cfg).schedules.find? (fun x => x.1 == s.id) = some (s.id,s.name) :=
    find?_of_nodup hn hm
  rw [scheduleName,hf]
  rfl

theorem scheduleName_injOn (accepted : resolve lib π raw = .ok cfg) {s s' : CompiledSchedule}
    (hs : s ∈ cfg.schedules) (hs' : s' ∈ cfg.schedules)
    (h : (fromConfig cfg).scheduleName s.id = (fromConfig cfg).scheduleName s'.id) : s = s' := by
  rw [scheduleName_of_mem accepted hs,scheduleName_of_mem accepted hs'] at h
  have hn : (cfg.schedules.map CompiledSchedule.name).Nodup := by
    rw [schedule_names accepted]
    exact raw.schedules.names_nodup
  exact List.inj_on_of_nodup_map hn hs hs' h

end NamedDirectory

theorem TimerKey.eq_of_name {key key' : TimerKey} (h : key.name = key'.name) : key = key' := by
  cases key
  cases key'
  exact congrArg TimerKey.mk h

/-- The text that a rendered trigger is told by. -/
def Trigger.tag : Trigger → String
  | action _ _ => "event"
  | changed _ _ _ => "changed"
  | crosses _ _ _ _ => "crosses"
  | reports _ _ => "reports"
  | timer _ => "timer"
  | time _ => "time"
  | commandFailed _ => "command_failed"

/-- The text that a rendered condition is told by, if it is not the literal `true`. -/
def Condition.tag : Condition → Option String
  | always => none
  | not _ => some "not"
  | and _ => some "and"
  | or _ => some "or"
  | boolEquals _ _ _ => some "bool_equals"
  | compare _ _ _ _ => some "compare"
  | colorEquals _ _ _ _ => some "color_equals"

/-- The text that a rendered command is told by. -/
def Command.tag : Command → String
  | setSwitch _ _ => "set_switch"
  | toggleSwitch _ => "toggle_switch"
  | setBrightness _ _ _ => "set_brightness"
  | increaseBrightness _ _ => "increase_brightness"
  | decreaseBrightness _ _ => "decrease_brightness"
  | setColor _ _ _ _ _ => "set_color"
  | setColorTemperature _ _ _ => "set_color_temperature"
  | activateScene _ => "activate_scene"
  | scheduleTimer _ _ => "schedule_timer"
  | cancelTimer _ => "cancel_timer"
  | sendIrCode _ _ => "send_ir_code"

/-- The command without the code that is left out. -/
def Command.uncoded : Command → Command
  | sendIrCode device _ => sendIrCode device ""
  | cmd => cmd

/-- A condition and those it is made of. -/
inductive Condition.Within (c : Condition) : Condition → Prop
  | refl : Within c c
  | not {inner : Condition} (h : Within c inner) : Within c (.not inner)
  | and {inner : Condition} {cs : List Condition} (hm : inner ∈ cs) (h : Within c inner) :
      Within c (.and cs)
  | or {inner : Condition} {cs : List Condition} (hm : inner ∈ cs) (h : Within c inner) :
      Within c (.or cs)

/-- What is within a well-formed condition is well formed. -/
theorem Condition.Within.wellFormed {s : Scope} {c c' : Condition} (h : c.Within c')
    (wf : c'.WellFormed s) : c.WellFormed s := by
  induction h with
  | refl => exact wf
  | not _ ih =>
    cases wf with
    | not hi => exact ih hi
  | and hm _ ih =>
    cases wf with
    | and hi => exact ih (hi _ hm)
  | or hm _ ih =>
    cases wf with
    | or hi => exact ih (hi _ hm)

namespace Describe
open NamedDirectory
variable {lib : Libraries} {π : HashOrder} {raw : RawConfig} {cfg : CompiledConfig}

/-- What declares a capability is listed. -/
theorem listed {device : DeviceId} {kind : CapabilityKind}
    (h : cfg.scope.Declares device kind) : Listed cfg device := by
  obtain ⟨d,hd,hid,-⟩ := h
  exact .inl ⟨d,hd,hid⟩

theorem get_trigger (directory : NamedDirectory) (t : Trigger) :
    (trigger directory t).get "type" = some (.string t.tag) := by
  cases t <;> exact (Json.get_ofFields (by simp) _).trans rfl

theorem trigger_injOn (accepted : resolve lib π raw = .ok cfg)
    (free : ∀ d ∈ cfg.devices, d.name ≠ clockDeviceName) {t t' : Trigger}
    (ht : t.WellFormed cfg.scope) (ht' : t'.WellFormed cfg.scope)
    (h : trigger (fromConfig cfg) t = trigger (fromConfig cfg) t') : t = t' := by
  have htag : t.tag = t'.tag := by
    have hget := congrArg (fun j => j.get "type") h
    simpa only [get_trigger,Option.some.injEq,Json.string.injEq] using hget
  cases t with
  | action device a =>
    cases t' with
    | action device' a' =>
      obtain ⟨d,hd,rfl,e,he,rfl⟩ := ht
      obtain ⟨d',hd',rfl,e',he',rfl⟩ := ht'
      have hf := Json.ofFields_injective h rfl (by simp)
      simp only [List.cons.injEq,Prod.mk.injEq,Json.string.injEq,true_and,and_true] at hf
      have hid := deviceName_injOn accepted free (.inl ⟨d,hd,rfl⟩) (.inl ⟨d',hd',rfl⟩) hf.1
      obtain rfl := eq_of_device_id accepted hd' hd hid
      rw [actionName_injOn accepted hd he he' hf.2]
    | _ => exact absurd htag (by simp [Trigger.tag])
  | changed device kind target =>
    cases t' with
    | changed device' kind' target' =>
      have hf := Json.ofFields_injective h rfl (by simp)
      simp only [List.cons.injEq,Prod.mk.injEq,Json.string.injEq,Json.bool.injEq,true_and,
        and_true] at hf
      obtain ⟨hname,hkind,rfl⟩ := hf
      rw [deviceName_injOn accepted free (listed ht.1) (listed ht'.1) hname,
        CapabilityKind.name_injective hkind]
    | _ => exact absurd htag (by simp [Trigger.tag])
  | crosses device kind bound dir =>
    cases t' with
    | crosses device' kind' bound' dir' =>
      have hf := Json.ofFields_injective h rfl (by simp)
      simp only [List.cons.injEq,Prod.mk.injEq,Json.string.injEq,Json.int.injEq,true_and,
        and_true] at hf
      obtain ⟨hname,hkind,rfl,hdir⟩ := hf
      have hd : dir = dir' := by
        cases dir <;> cases dir' <;> first
          | rfl
          | exact absurd hdir (by decide)
      rw [deviceName_injOn accepted free (listed ht.1) (listed ht'.1) hname,
        CapabilityKind.name_injective hkind,hd]
    | _ => exact absurd htag (by simp [Trigger.tag])
  | reports device kind =>
    cases t' with
    | reports device' kind' =>
      have hf := Json.ofFields_injective h rfl (by simp)
      simp only [List.cons.injEq,Prod.mk.injEq,Json.string.injEq,true_and,and_true] at hf
      rw [deviceName_injOn accepted free (listed ht) (listed ht') hf.1,
        CapabilityKind.name_injective hf.2]
    | _ => exact absurd htag (by simp [Trigger.tag])
  | timer key =>
    cases t' with
    | timer key' =>
      have hf := Json.ofFields_injective h rfl (by simp)
      simp only [List.cons.injEq,Prod.mk.injEq,Json.string.injEq,true_and,and_true] at hf
      rw [TimerKey.eq_of_name hf]
    | _ => exact absurd htag (by simp [Trigger.tag])
  | time schedule =>
    cases t' with
    | time schedule' =>
      obtain ⟨x,hx,rfl⟩ := ht
      obtain ⟨x',hx',rfl⟩ := ht'
      have hf := Json.ofFields_injective h rfl (by simp)
      simp only [List.cons.injEq,Prod.mk.injEq,Json.string.injEq,true_and,and_true] at hf
      rw [scheduleName_injOn accepted hx hx' hf]
    | _ => exact absurd htag (by simp [Trigger.tag])
  | commandFailed device =>
    cases t' with
    | commandFailed device' =>
      have hf := Json.ofFields_injective h rfl (by simp)
      simp only [List.cons.injEq,Prod.mk.injEq,true_and,and_true] at hf
      cases device with
      | none => cases device' <;> simp_all [Json.orNull]
      | some i =>
        cases device' with
        | none => simp [Json.orNull] at hf
        | some j =>
          simp only [Json.orNull,Option.map_some,Option.getD_some,Json.string.injEq] at hf
          rw [deviceName_injOn accepted free (.inl (ht i rfl)) (.inl (ht' j rfl)) hf]
    | _ => exact absurd htag (by simp [Trigger.tag])

theorem conditions_eq_map (directory : NamedDirectory) (cs : List Condition) :
    conditions directory cs = cs.map (condition directory) := by
  induction cs with
  | nil => rfl
  | cons c cs ih => rw [conditions,ih,List.map_cons]

theorem get_condition (directory : NamedDirectory) (c : Condition) :
    (condition directory c).get "type" = c.tag.map Json.string := by
  cases c <;> rw [condition] <;> first
    | rfl
    | exact (Json.get_ofFields (by simp) _).trans rfl

theorem get_command (directory : NamedDirectory) (cmd : Command) :
    (command directory cmd).get "type" = some (.string cmd.tag) := by
  cases cmd <;> exact (Json.get_ofFields (by simp) _).trans rfl

theorem tag_eq_of_condition_eq {directory : NamedDirectory} {c c' : Condition}
    (h : condition directory c = condition directory c') : c.tag = c'.tag := by
  have hget := congrArg (fun j => j.get "type") h
  simp only [get_condition] at hget
  exact Option.map_injective (fun a b => Json.string.inj) hget

/-- The members of a list are rendered one by one. -/
theorem eq_of_conditions_eq {directory : NamedDirectory} {cs cs' : List Condition}
    (h : conditions directory cs = conditions directory cs')
    (hinj : ∀ c ∈ cs, ∀ c' ∈ cs', condition directory c = condition directory c' → c = c') :
    cs = cs' := by
  rw [conditions_eq_map,conditions_eq_map] at h
  induction cs generalizing cs' with
  | nil => exact (List.map_eq_nil_iff.mp h.symm).symm
  | cons c cs ih =>
    cases cs' with
    | nil => cases h
    | cons c' cs' =>
      rw [List.map_cons,List.map_cons,List.cons.injEq] at h
      rw [hinj c List.mem_cons_self c' List.mem_cons_self h.1]
      congr 1
      exact ih h.2 fun d hd d' hd' =>
        hinj d (List.mem_cons_of_mem c hd) d' (List.mem_cons_of_mem c' hd')

theorem cmpOp_injective : Function.Injective cmpOp := by
  intro a b h
  cases a <;> cases b <;> first
    | rfl
    | exact absurd h (by decide)

theorem listed_boolEquals {device : DeviceId} {kind : CapabilityKind} {value : Bool}
    (h : (Condition.boolEquals device kind value).WellFormed cfg.scope) : Listed cfg device := by
  cases h with
  | sun => exact .inr rfl
  | boolEquals _ declared => exact listed declared

theorem listed_compare {device : DeviceId} {kind : CapabilityKind} {op : CmpOp} {value : ℤ}
    (h : (Condition.compare device kind op value).WellFormed cfg.scope) : Listed cfg device := by
  cases h with
  | time => exact .inr rfl
  | compare _ _ declared => exact listed declared

theorem listed_colorEquals {device : DeviceId} {r g b : UInt8}
    (h : (Condition.colorEquals device r g b).WellFormed cfg.scope) : Listed cfg device := by
  cases h with
  | colorEquals _ _ _ declared => exact listed declared

section Leaves
variable (accepted : resolve lib π raw = .ok cfg)
  (free : ∀ d ∈ cfg.devices, d.name ≠ clockDeviceName) {c' : Condition} {device : DeviceId}
  {kind : CapabilityKind}
include accepted free

theorem boolEquals_injOn {value : Bool} (hd : Listed cfg device) (hc' : c'.WellFormed cfg.scope)
    (h : condition (fromConfig cfg) (.boolEquals device kind value) =
      condition (fromConfig cfg) c') (htag : c'.tag = some "bool_equals") :
    .boolEquals device kind value = c' := by
  cases c' with
  | boolEquals device' kind' value' =>
    rw [condition,condition] at h
    have hf := Json.ofFields_injective h rfl (by simp)
    simp only [List.cons.injEq,Prod.mk.injEq,Json.string.injEq,Json.bool.injEq,true_and,
      and_true] at hf
    obtain ⟨hname,hkind,rfl⟩ := hf
    rw [deviceName_injOn accepted free hd (listed_boolEquals hc') hname,
      CapabilityKind.name_injective hkind]
  | _ => exact absurd htag (by simp [Condition.tag])

theorem compare_injOn {op : CmpOp} {value : ℤ} (hd : Listed cfg device)
    (hc' : c'.WellFormed cfg.scope)
    (h : condition (fromConfig cfg) (.compare device kind op value) =
      condition (fromConfig cfg) c') (htag : c'.tag = some "compare") :
    .compare device kind op value = c' := by
  cases c' with
  | compare device' kind' op' value' =>
    rw [condition,condition] at h
    have hf := Json.ofFields_injective h rfl (by simp)
    simp only [List.cons.injEq,Prod.mk.injEq,Json.string.injEq,Json.int.injEq,true_and,
      and_true] at hf
    obtain ⟨hname,hkind,hop,rfl⟩ := hf
    rw [deviceName_injOn accepted free hd (listed_compare hc') hname,
      CapabilityKind.name_injective hkind,cmpOp_injective hop]
  | _ => exact absurd htag (by simp [Condition.tag])

theorem colorEquals_injOn {r g b : UInt8} (hd : Listed cfg device)
    (hc' : c'.WellFormed cfg.scope)
    (h : condition (fromConfig cfg) (.colorEquals device r g b) =
      condition (fromConfig cfg) c') (htag : c'.tag = some "color_equals") :
    .colorEquals device r g b = c' := by
  cases c' with
  | colorEquals device' r' g' b' =>
    rw [condition,condition] at h
    have hf := Json.ofFields_injective h rfl (by simp)
    simp only [List.cons.injEq,Prod.mk.injEq,Json.string.injEq,true_and,and_true] at hf
    obtain ⟨rfl,rfl,rfl⟩ := Json.ofColor_injective hf.2
    rw [deviceName_injOn accepted free hd (listed_colorEquals hc') hf.1]
  | _ => exact absurd htag (by simp [Condition.tag])

/-- By induction on the condition, against every other one. -/
theorem condition_injOn {c : Condition} (hc : c.WellFormed cfg.scope)
    (hc' : c'.WellFormed cfg.scope)
    (h : condition (fromConfig cfg) c = condition (fromConfig cfg) c') : c = c' := by
  induction hc generalizing c' with
  | always =>
    have htag := tag_eq_of_condition_eq h
    cases c' with
    | always => rfl
    | _ => exact absurd htag (by simp [Condition.tag])
  | not _ ih =>
    have htag := tag_eq_of_condition_eq h
    cases c' with
    | not inner =>
      rw [condition,condition] at h
      have hf := Json.ofFields_injective h rfl (by simp)
      simp only [List.cons.injEq,Prod.mk.injEq,true_and,and_true] at hf
      cases hc' with
      | not hi => rw [ih hi hf]
    | _ => exact absurd htag (by simp [Condition.tag])
  | and _ ih =>
    have htag := tag_eq_of_condition_eq h
    cases c' with
    | and cs =>
      rw [condition,condition] at h
      have hf := Json.ofFields_injective h rfl (by simp)
      simp only [List.cons.injEq,Prod.mk.injEq,Json.array.injEq,true_and,and_true] at hf
      cases hc' with
      | and hi => rw [eq_of_conditions_eq hf fun d hd d' hd' => ih d hd (hi d' hd')]
    | _ => exact absurd htag (by simp [Condition.tag])
  | or _ ih =>
    have htag := tag_eq_of_condition_eq h
    cases c' with
    | or cs =>
      rw [condition,condition] at h
      have hf := Json.ofFields_injective h rfl (by simp)
      simp only [List.cons.injEq,Prod.mk.injEq,Json.array.injEq,true_and,and_true] at hf
      cases hc' with
      | or hi => rw [eq_of_conditions_eq hf fun d hd d' hd' => ih d hd (hi d' hd')]
    | _ => exact absurd htag (by simp [Condition.tag])
  | sun up =>
    exact boolEquals_injOn accepted free (.inr rfl) hc' h (tag_eq_of_condition_eq h).symm
  | time op minute =>
    exact compare_injOn accepted free (.inr rfl) hc' h (tag_eq_of_condition_eq h).symm
  | boolEquals value declared =>
    exact boolEquals_injOn accepted free (listed declared) hc' h (tag_eq_of_condition_eq h).symm
  | compare op value declared =>
    exact compare_injOn accepted free (listed declared) hc' h (tag_eq_of_condition_eq h).symm
  | colorEquals r g b declared =>
    exact colorEquals_injOn accepted free (listed declared) hc' h (tag_eq_of_condition_eq h).symm

theorem command_injOn {cmd cmd' : Command}
    (hc : cmd.WellFormed cfg.scope) (hc' : cmd'.WellFormed cfg.scope)
    (h : command (fromConfig cfg) cmd = command (fromConfig cfg) cmd') :
    cmd.uncoded = cmd'.uncoded := by
  have htag : cmd.tag = cmd'.tag := by
    have hget := congrArg (fun j => j.get "type") h
    simpa only [get_command,Option.some.injEq,Json.string.injEq] using hget
  -- two commands of one kind are sent to devices that declare the same capability
  have hdev : ∀ {i j : DeviceId} {k k' : CapabilityKind}, cmd.needs = some (i,k) →
      cmd'.needs = some (j,k') →
      (fromConfig cfg).deviceName i = (fromConfig cfg).deviceName j → i = j :=
    fun hi hj hname => deviceName_injOn accepted free (listed (hc.declared _ hi))
      (listed (hc'.declared _ hj)) hname
  cases cmd with
  | setSwitch device on =>
    cases cmd' with
    | setSwitch device' on' =>
      have hf := Json.ofFields_injective h rfl (by simp)
      simp only [List.cons.injEq,Prod.mk.injEq,Json.string.injEq,Json.bool.injEq,true_and,
        and_true] at hf
      rw [hdev rfl rfl hf.1,hf.2]
    | _ => exact absurd htag (by simp [Command.tag])
  | toggleSwitch device =>
    cases cmd' with
    | toggleSwitch device' =>
      have hf := Json.ofFields_injective h rfl (by simp)
      simp only [List.cons.injEq,Prod.mk.injEq,Json.string.injEq,true_and,and_true] at hf
      rw [hdev rfl rfl hf]
    | _ => exact absurd htag (by simp [Command.tag])
  | setBrightness device value transition =>
    cases cmd' with
    | setBrightness device' value' transition' =>
      have hf := Json.ofFields_injective h rfl (by simp)
      simp only [List.cons.injEq,Prod.mk.injEq,Json.string.injEq,Json.int.injEq,Nat.cast_inj,
        UInt8.toNat_inj,true_and,and_true] at hf
      rw [hdev rfl rfl hf.1,hf.2.1,Json.ofMillis_injective hf.2.2]
    | _ => exact absurd htag (by simp [Command.tag])
  | increaseBrightness device value =>
    cases cmd' with
    | increaseBrightness device' value' =>
      have hf := Json.ofFields_injective h rfl (by simp)
      simp only [List.cons.injEq,Prod.mk.injEq,Json.string.injEq,Json.int.injEq,Nat.cast_inj,
        UInt8.toNat_inj,true_and,and_true] at hf
      rw [hdev rfl rfl hf.1,hf.2]
    | _ => exact absurd htag (by simp [Command.tag])
  | decreaseBrightness device value =>
    cases cmd' with
    | decreaseBrightness device' value' =>
      have hf := Json.ofFields_injective h rfl (by simp)
      simp only [List.cons.injEq,Prod.mk.injEq,Json.string.injEq,Json.int.injEq,Nat.cast_inj,
        UInt8.toNat_inj,true_and,and_true] at hf
      rw [hdev rfl rfl hf.1,hf.2]
    | _ => exact absurd htag (by simp [Command.tag])
  | setColor device r g b transition =>
    cases cmd' with
    | setColor device' r' g' b' transition' =>
      have hf := Json.ofFields_injective h rfl (by simp)
      simp only [List.cons.injEq,Prod.mk.injEq,Json.string.injEq,true_and,and_true] at hf
      obtain ⟨rfl,rfl,rfl⟩ := Json.ofColor_injective hf.2.1
      rw [hdev rfl rfl hf.1,Json.ofMillis_injective hf.2.2]
    | _ => exact absurd htag (by simp [Command.tag])
  | setColorTemperature device mireds transition =>
    cases cmd' with
    | setColorTemperature device' mireds' transition' =>
      have hf := Json.ofFields_injective h rfl (by simp)
      simp only [List.cons.injEq,Prod.mk.injEq,Json.string.injEq,Json.int.injEq,Nat.cast_inj,
        UInt16.toNat_inj,true_and,and_true] at hf
      rw [hdev rfl rfl hf.1,hf.2.1,Json.ofMillis_injective hf.2.2]
    | _ => exact absurd htag (by simp [Command.tag])
  | activateScene scene =>
    cases cmd' with
    | activateScene scene' =>
      obtain ⟨x,hx,rfl⟩ := hc.scene _ rfl
      obtain ⟨x',hx',rfl⟩ := hc'.scene _ rfl
      have hf := Json.ofFields_injective h rfl (by simp)
      simp only [List.cons.injEq,Prod.mk.injEq,Json.string.injEq,true_and,and_true] at hf
      rw [sceneName_injOn accepted hx hx' hf]
    | _ => exact absurd htag (by simp [Command.tag])
  | scheduleTimer key after =>
    cases cmd' with
    | scheduleTimer key' after' =>
      have hf := Json.ofFields_injective h rfl (by simp)
      simp only [List.cons.injEq,Prod.mk.injEq,Json.string.injEq,Json.int.injEq,Nat.cast_inj,
        true_and,and_true] at hf
      rw [TimerKey.eq_of_name hf.1,hf.2]
    | _ => exact absurd htag (by simp [Command.tag])
  | cancelTimer key =>
    cases cmd' with
    | cancelTimer key' =>
      have hf := Json.ofFields_injective h rfl (by simp)
      simp only [List.cons.injEq,Prod.mk.injEq,Json.string.injEq,true_and,and_true] at hf
      rw [TimerKey.eq_of_name hf]
    | _ => exact absurd htag (by simp [Command.tag])
  | sendIrCode device code =>
    cases cmd' with
    | sendIrCode device' code' =>
      have hf := Json.ofFields_injective h rfl (by simp)
      simp only [List.cons.injEq,Prod.mk.injEq,Json.string.injEq,true_and,and_true] at hf
      rw [Command.uncoded,Command.uncoded,hdev rfl rfl hf]
    | _ => exact absurd htag (by simp [Command.tag])

end Leaves

end Describe

/-- A condition of a rule, or of one of its conditions. -/
def CompiledConfig.Says (cfg : CompiledConfig) (c : Condition) : Prop :=
  ∃ r ∈ cfg.rules, c.Within r.condition

/-- What is told apart in a config is told apart on the wire. -/
structure RenderedApart (cfg : CompiledConfig) : Prop where
  triggers : ∀ r ∈ cfg.rules, ∀ r' ∈ cfg.rules,
    Describe.trigger (.fromConfig cfg) r.trigger = Describe.trigger (.fromConfig cfg) r'.trigger →
      r.trigger = r'.trigger
  conditions : ∀ c c', cfg.Says c → cfg.Says c' →
    Describe.condition (.fromConfig cfg) c = Describe.condition (.fromConfig cfg) c' → c = c'
  commands : ∀ cmd ∈ cfg.commands, ∀ cmd' ∈ cfg.commands,
    Describe.command (.fromConfig cfg) cmd = Describe.command (.fromConfig cfg) cmd' →
      cmd.uncoded = cmd'.uncoded

section Accepted
variable {lib : Libraries} {π : HashOrder} {raw : RawConfig} {cfg : CompiledConfig}

/-- Every command of an accepted config is well formed. -/
theorem commands_wellFormed (accepted : resolve lib π raw = .ok cfg) :
    ∀ cmd ∈ cfg.commands, cmd.WellFormed cfg.scope := by
  obtain ⟨hrules,hscenes⟩ := accepted_wellFormed accepted
  intro cmd hm
  rcases List.mem_append.mp hm with hm | hm
  · obtain ⟨r,hr,hc⟩ := List.mem_flatMap.mp hm
    exact (hrules r hr).commands cmd hc
  · obtain ⟨s,hs,hc⟩ := List.mem_flatMap.mp hm
    exact hscenes s hs cmd hc

/-- The rendering of an accepted config loses nothing but the infrared codes, where no device is
called the clock. -/
theorem accepted_renderedApart (accepted : resolve lib π raw = .ok cfg)
    (free : ∀ d ∈ cfg.devices, d.name ≠ clockDeviceName) : RenderedApart cfg := by
  obtain ⟨hrules,-⟩ := accepted_wellFormed accepted
  refine ⟨fun r hr r' hr' h => ?_,fun c c' hc hc' h => ?_,fun cmd hm cmd' hm' h => ?_⟩
  · exact Describe.trigger_injOn accepted free (hrules r hr).trigger (hrules r' hr').trigger h
  · obtain ⟨r,hr,hw⟩ := hc
    obtain ⟨r',hr',hw'⟩ := hc'
    exact Describe.condition_injOn accepted free (hw.wellFormed (hrules r hr).condition)
      (hw'.wellFormed (hrules r' hr').condition) h
  · have hwf := commands_wellFormed accepted
    exact Describe.command_injOn accepted free (hwf cmd hm) (hwf cmd' hm') h

theorem night_config_renderedApart : ∃ cfg, resolve plainLibraries .identity nightConfig = .ok cfg ∧
    RenderedApart cfg := by
  obtain ⟨cfg,h,free⟩ : ∃ cfg, resolve plainLibraries .identity nightConfig = .ok cfg ∧
    ∀ d ∈ cfg.devices, d.name ≠ clockDeviceName := ⟨_,rfl,by decide⟩
  exact ⟨cfg,h,accepted_renderedApart h free⟩

end Accepted
end Domiform
