import Domiform.Compile.Meaning
import Domiform.Library.Matched
import Domiform.Reproducible
import Domiform.Scenes

/-! Idle scenes and schedules. The compiler warns of a scene exactly when no command of the file
activates it, and of a schedule exactly when no rule waits for it. -/
namespace Domiform
open Library Checked

/-- The schedule a trigger waits for. -/
def Value.awaitedSchedule : Value → Option String
  | .mapping [(k,payload)] => if k.asStr = some "schedule" then payload.asStr else none
  | _ => none

/-- Every command of a compiled config, of scenes and of rules. -/
def CompiledConfig.Holds (cfg : CompiledConfig) (c : Command) : Prop :=
  (∃ s ∈ cfg.scenes, c ∈ s.commands) ∨ ∃ r ∈ cfg.rules, c ∈ r.commands

namespace Lowerer
variable (lw : Lowerer) (context : String) {v : Value}

/-- A command uses the scene that it activates. -/
theorem usedScene_mem_command {scene : SceneId} :
    .usedScene scene ∈ (lw.command context v).notes ↔
      ∃ name, v.activatedScene = some name ∧ lw.sceneIndex.lookup name = some scene := by
  constructor
  · intro hn
    by_contra other
    have clean : Note.NoError (· = .usedScene scene) := by rintro _ _ _ ⟨⟩
    have quiet : Quiet (· = .usedScene scene) (lw.command context v) := by
      refine (quiet_singleEntry clean context v _).of_bind_value ?_
      rintro ⟨verb,payload⟩ hv
      obtain ⟨k,rfl,hk⟩ := singleEntry_eq_some hv
      apply lw.quiet_commandOf_known clean context
      · rintro _ s _ ⟨⟩
      · rintro _ key _ ⟨⟩
      · rintro rfl name s hs known ⟨⟩
        exact other ⟨name,by rw [Value.activatedScene,if_pos hk,hs],known⟩
    exact quiet _ hn rfl
  · rintro ⟨name,hv,known⟩
    unfold Value.activatedScene at hv
    split at hv
    · split_ifs at hv with hk
      simp [command,singleEntry,hk,commandOf,asName,hv,known,Checked.pure_bind,
        Checked.mem_notes_bind,Checked.note]
    · cases hv

theorem usedScene_not_mem_trigger {scene : SceneId} :
    .usedScene scene ∉ (lw.trigger context v).notes := by
  intro hn
  have clean : Note.NoError (· = .usedScene scene) := by rintro _ _ _ ⟨⟩
  have quiet : Quiet (· = .usedScene scene) (lw.trigger context v) :=
    (quiet_singleEntry clean context v _).of_bind fun _ =>
      lw.quiet_triggerOf clean context _ _ (by rintro _ _ _ ⟨⟩) (by rintro _ ⟨⟩)
  exact quiet _ hn rfl

/-- A trigger refers to the schedule that it waits for. -/
theorem referencedSchedule_mem_trigger {schedule : ScheduleId} :
    .referencedSchedule schedule ∈ (lw.trigger context v).notes ↔
      ∃ name, v.awaitedSchedule = some name ∧ lw.scheduleIndex.lookup name = some schedule := by
  constructor
  · intro hn
    by_contra other
    have clean : Note.NoError (· = .referencedSchedule schedule) := by rintro _ _ _ ⟨⟩
    have quiet : Quiet (· = .referencedSchedule schedule) (lw.trigger context v) := by
      refine (quiet_singleEntry clean context v _).of_bind_value ?_
      rintro ⟨verb,payload⟩ hv
      obtain ⟨k,rfl,hk⟩ := singleEntry_eq_some hv
      apply lw.quiet_triggerOf_known clean context
      · rintro _ key _ ⟨⟩
      · rintro rfl name s hs known ⟨⟩
        exact other ⟨name,by rw [Value.awaitedSchedule,if_pos hk,hs],known⟩
    exact quiet _ hn rfl
  · rintro ⟨name,hv,known⟩
    unfold Value.awaitedSchedule at hv
    split at hv
    · split_ifs at hv with hk
      simp [trigger,singleEntry,hk,triggerOf,asName,hv,known,Checked.pure_bind,
        Checked.mem_notes_bind,Checked.note]
    · cases hv

theorem referencedSchedule_not_mem_command {schedule : ScheduleId} :
    .referencedSchedule schedule ∉ (lw.command context v).notes := by
  intro hn
  have clean : Note.NoError (· = .referencedSchedule schedule) := by rintro _ _ _ ⟨⟩
  have quiet : Quiet (· = .referencedSchedule schedule) (lw.command context v) :=
    (quiet_singleEntry clean context v _).of_bind fun _ =>
      lw.quiet_commandOf clean context _ _ (by rintro _ _ _ ⟨⟩) (by rintro _ _ _ ⟨⟩)
        (by rintro _ ⟨⟩)
  exact quiet _ hn rfl

/-- A trigger lowers to the end of a schedule exactly when it names a known one. -/
theorem trigger_time_iff {schedule : ScheduleId} :
    (lw.trigger context v).value = some (.time schedule) ↔
      ∃ name, v.awaitedSchedule = some name ∧ lw.scheduleIndex.lookup name = some schedule := by
  constructor
  · intro h
    obtain ⟨⟨verb,payload⟩,hv,ht⟩ := value_bind_eq_some.mp h
    obtain ⟨k,rfl,hk⟩ := singleEntry_eq_some hv
    have spelled : lw.Spells payload verb (.time schedule) := triggerOf_spells ht
    generalize hverb : verb = w at spelled
    cases spelled with
    | schedule named known =>
      refine ⟨_,?_,known⟩
      rw [Value.awaitedSchedule,if_pos (hverb ▸ hk)]
      exact named
  · rintro ⟨name,hv,known⟩
    unfold Value.awaitedSchedule at hv
    split at hv
    · split_ifs at hv with hk
      simp [trigger,singleEntry,hk,triggerOf,asName,hv,known,Checked.value_bind_eq_some,
        Checked.note]
    · cases hv

end Lowerer

namespace Resolve
variable {lib : Libraries} {π : HashOrder} {raw : RawConfig} {cfg : CompiledConfig}

/-- The warning that nothing activates a scene. -/
def unusedScene (name : String) : Diagnostic :=
  (Diagnostic.warning "E_UNUSED_SCENE" "scene is never activated").place (sceneContext name)

/-- The warning that nothing waits for a schedule. -/
def unusedSchedule (name : String) : Diagnostic :=
  (Diagnostic.warning "E_UNUSED_SCHEDULE" "schedule triggers no rule").place (scheduleContext name)

theorem unusedScene_injective : Function.Injective unusedScene := by
  intro n n' h
  have hc : some (sceneContext n) = some (sceneContext n') := congrArg Diagnostic.context h
  have hl := congrArg String.toList (Option.some.inj hc)
  simp only [sceneContext,String.toList_append] at hl
  exact String.toList_injective (List.append_cancel_left (List.append_cancel_right hl))

theorem unusedSchedule_injective : Function.Injective unusedSchedule := by
  intro n n' h
  have hc : some (scheduleContext n) = some (scheduleContext n') := congrArg Diagnostic.context h
  have hl := congrArg String.toList (Option.some.inj hc)
  simp only [scheduleContext,String.toList_append] at hl
  exact String.toList_injective (List.append_cancel_left (List.append_cancel_right hl))

/-- Every line of an accepted config became a command. -/
theorem holds_of_line (accepted : resolve lib π raw = .ok cfg) {v : Value} (hv : v ∈ raw.lines) :
    ∃ context c, ((lowerer lib raw).command context v).value = some c ∧ cfg.Holds c := by
  rcases List.mem_append.mp hv with hv | hv
  · obtain ⟨scene,hm,hv⟩ := List.mem_flatMap.mp hv
    obtain ⟨i,hi⟩ := List.mem_iff_getElem?.mp hm
    obtain ⟨s,hs,h,-⟩ := exists_of_forall₂ (scenes_of_accepted accepted) (scene,i)
      (List.mem_zipIdx_iff_getElem?.mpr hi)
    obtain ⟨c,hc,hl⟩ := exists_of_forall₂ h.commands v hv
    exact ⟨_,c,hl,.inl ⟨s,hs,hc⟩⟩
  · obtain ⟨rule,hm,hv⟩ := List.mem_flatMap.mp hv
    obtain ⟨i,hi⟩ := List.mem_iff_getElem?.mp hm
    obtain ⟨r,hr,h,-⟩ := exists_of_forall₂ (rules_of_accepted accepted) (rule,i)
      (List.mem_zipIdx_iff_getElem?.mpr hi)
    obtain ⟨c,hc,hl⟩ := exists_of_forall₂ h.commands v hv
    exact ⟨_,c,hl,.inr ⟨r,hr,hc⟩⟩

/-- A scene is noted as used exactly when some command activates it. -/
theorem usedScene_mem_notes (accepted : resolve lib π raw = .ok cfg) {scene : SceneId} :
    .usedScene scene ∈ notes lib raw ↔ cfg.Holds (.activateScene scene) := by
  have noted : .usedScene scene ∈ notes lib raw ↔ ∃ v ∈ raw.lines, ∃ name,
      v.activatedScene = some name ∧ (sceneIndex raw).lookup name = some scene := by
    rw [mem_notes_iff (by rintro _ _ _ ⟨⟩) (T := fun _ => False)
      (fun _ _ => iff_of_false (Lowerer.usedScene_not_mem_trigger _ _) id)
      fun _ _ => Lowerer.usedScene_mem_command _ _]
    simp [lowerer]
  rw [noted]
  constructor
  · rintro ⟨v,hv,named⟩
    obtain ⟨context,c,hl,held⟩ := holds_of_line accepted hv
    rw [command_activateScene_iff.mpr named] at hl
    cases hl
    exact held
  · intro held
    obtain ⟨context,v,hv,hl,-⟩ := line_of_command accepted held
    exact ⟨v,hv,command_activateScene_iff.mp hl⟩

/-- A schedule is noted as referred to exactly when some rule waits for it. -/
theorem referencedSchedule_mem_notes (accepted : resolve lib π raw = .ok cfg)
    {schedule : ScheduleId} : .referencedSchedule schedule ∈ notes lib raw ↔
      ∃ r ∈ cfg.rules, r.trigger = .time schedule := by
  have noted : .referencedSchedule schedule ∈ notes lib raw ↔ ∃ rule ∈ raw.rules.entries, ∃ name,
      rule.2.trigger.awaitedSchedule = some name ∧
        (scheduleIndex raw).lookup name = some schedule := by
    rw [mem_notes_iff (by rintro _ _ _ ⟨⟩) (L := fun _ => False)
      (fun _ _ => Lowerer.referencedSchedule_mem_trigger _ _)
      fun _ _ => iff_of_false (Lowerer.referencedSchedule_not_mem_command _ _) id]
    simp [lowerer]
  have lowered := rules_of_accepted accepted
  rw [noted]
  constructor
  · rintro ⟨rule,hm,named⟩
    obtain ⟨i,hi⟩ := List.mem_iff_getElem?.mp hm
    obtain ⟨r,hr,h,-⟩ := exists_of_forall₂ lowered (rule,i) (List.mem_zipIdx_iff_getElem?.mpr hi)
    refine ⟨r,hr,Option.some.inj (h.trigger.symm.trans ?_)⟩
    exact (Lowerer.trigger_time_iff _ _).mpr named
  · rintro ⟨r,hr,waits⟩
    obtain ⟨x,hx,h,-⟩ := exists_of_forall₂ lowered.flip r hr
    refine ⟨x.1,List.fst_mem_of_mem_zipIdx hx,?_⟩
    exact (Lowerer.trigger_time_iff _ (ruleContext x.1.1)).mp (waits ▸ h.trigger)

theorem warnings_of_accepted (accepted : resolve lib π raw = .ok cfg) :
    cfg.warnings = diagnostics lib raw π := by
  rw [resolve] at accepted
  split_ifs at accepted
  cases accepted
  rfl

/-- The compiler warns of the scenes that no command activates. -/
theorem unusedScene_mem_warnings (accepted : resolve lib π raw = .ok cfg) {s : CompiledScene}
    (hs : s ∈ cfg.scenes) :
    unusedScene s.name ∈ cfg.warnings ↔ ¬cfg.Holds (.activateScene s.id) := by
  rw [(resolve_eq_ok accepted).2.2.2.1] at hs
  have position {s : CompiledScene} (hs : s ∈ scenes lib raw) :
      raw.scenes.names[s.id.val]? = some s.name := by
    obtain ⟨_,hi,-⟩ := mem_scenes.mp hs
    rw [NameMap.names,List.getElem?_map,hi]
    rfl
  have listed : unusedScene s.name ∈ unusedScenes lib raw ↔ .usedScene s.id ∉ notes lib raw := by
    constructor
    · intro hd
      obtain ⟨s',hm,he⟩ := List.mem_map.mp hd
      obtain ⟨hs',unused⟩ := List.mem_filter.mp hm
      have hp := position hs'
      rw [unusedScene_injective he] at hp
      have same : s'.id = s.id :=
        congrArg SceneId.mk (raw.scenes.position_unique hp (position hs))
      rw [← same]
      exact of_decide_eq_true unused
    · exact fun unused => List.mem_map.mpr ⟨s,List.mem_filter.mpr ⟨hs,decide_eq_true unused⟩,rfl⟩
  rw [← usedScene_mem_notes accepted,← listed,warnings_of_accepted accepted]
  constructor
  · intro hd
    rcases warning_cases hd rfl with hc | hd | hd | hd
    · simp [unusedScene,Diagnostic.place,Diagnostic.warning] at hc
    · exact hd
    · obtain ⟨s',-,he⟩ := List.mem_map.mp hd
      exact absurd (congrArg Diagnostic.code he)
        (by simp [unusedScene,Diagnostic.place,Diagnostic.warning])
    · obtain ⟨k,-,he⟩ := List.mem_map.mp hd
      exact absurd (congrArg Diagnostic.code he)
        (by simp [unusedScene,Diagnostic.place,Diagnostic.warning])
  · intro hd
    simp only [diagnostics,List.mem_append]
    tauto

/-- The compiler warns of the schedules that no rule waits for. -/
theorem unusedSchedule_mem_warnings (accepted : resolve lib π raw = .ok cfg) {s : CompiledSchedule}
    (hs : s ∈ cfg.schedules) :
    unusedSchedule s.name ∈ cfg.warnings ↔ ∀ r ∈ cfg.rules, r.trigger ≠ .time s.id := by
  rw [(schedules_of_accepted accepted).1] at hs
  have position {s : CompiledSchedule} (hs : s ∈ schedules lib raw) :
      raw.schedules.names[s.id.val]? = some s.name := by
    obtain ⟨x,hx,hr⟩ := List.mem_filterMap.mp hs
    split at hr
    · cases hr
      rw [NameMap.names,List.getElem?_map,List.mem_zipIdx_iff_getElem?.mp hx]
      rfl
    · cases hr
  have listed : unusedSchedule s.name ∈ unusedSchedules lib raw ↔
      .referencedSchedule s.id ∉ notes lib raw := by
    constructor
    · intro hd
      obtain ⟨s',hm,he⟩ := List.mem_map.mp hd
      obtain ⟨hs',unused⟩ := List.mem_filter.mp hm
      have hp := position hs'
      rw [unusedSchedule_injective he] at hp
      have same : s'.id = s.id :=
        congrArg ScheduleId.mk (raw.schedules.position_unique hp (position hs))
      rw [← same]
      exact of_decide_eq_true unused
    · exact fun unused => List.mem_map.mpr ⟨s,List.mem_filter.mpr ⟨hs,decide_eq_true unused⟩,rfl⟩
  have unawaited : (∀ r ∈ cfg.rules, r.trigger ≠ .time s.id) ↔
      .referencedSchedule s.id ∉ notes lib raw := by
    rw [referencedSchedule_mem_notes accepted]
    simp
  rw [unawaited,← listed,warnings_of_accepted accepted]
  constructor
  · intro hd
    rcases warning_cases hd rfl with hc | hd | hd | hd
    · simp [unusedSchedule,Diagnostic.place,Diagnostic.warning] at hc
    · obtain ⟨s',-,he⟩ := List.mem_map.mp hd
      exact absurd (congrArg Diagnostic.code he)
        (by simp [unusedSchedule,Diagnostic.place,Diagnostic.warning])
    · exact hd
    · obtain ⟨k,-,he⟩ := List.mem_map.mp hd
      exact absurd (congrArg Diagnostic.code he)
        (by simp [unusedSchedule,Diagnostic.place,Diagnostic.warning])
  · intro hd
    simp only [diagnostics,List.mem_append]
    tauto

end Resolve
end Domiform
