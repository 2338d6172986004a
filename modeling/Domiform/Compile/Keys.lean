import Domiform.Compile.Build
import Domiform.Engine.Elapsing

/-! The timer keys of a config file: what its command lines schedule and cancel, and what it takes
for them to stay out of the engine's namespaces. -/
namespace Domiform
open Library

/-- A timer command that stays out of the engine's namespaces. -/
def Command.Apart : Command → Prop
  | scheduleTimer key _ =>
    key.startsWith forKeyPrefix = false ∧ ∀ n, key ≠ Engine.retryKey (n+1)
  | cancelTimer key => ∀ n, key ≠ Engine.forKey (n+1) ∧ key ≠ Engine.retryKey (n+1)
  | _ => True

namespace Command.Apart

theorem of_not_timer {c : Command} (h : c.isTimer = false) : c.Apart := by
  cases c with
  | scheduleTimer | cancelTimer => cases h
  | _ => trivial

/-- It touches none of the engine's own timers. -/
theorem avoids {c : Command} (h : c.Apart) : c.Avoids Engine.Own := by
  cases c with
  | scheduleTimer key after =>
    rintro (n | n)
    · exact absurd (h.1.symm.trans (Engine.forKey_startsWith (n+1))) (by simp)
    · exact h.2 n rfl
  | cancelTimer key =>
    rintro (n | n)
    · exact (h n).1 rfl
    · exact (h n).2 rfl
  | _ => trivial

end Command.Apart

/-- The key a command line schedules. -/
def Value.scheduledKey : Value → Option String
  | .mapping [(k,payload)] =>
    if k.asStr = some "schedule_timer" then
      match payload.applyMerge with
      | .ok merged => (RawScheduleTimer.decode merged).map RawScheduleTimer.key
      | .error _ => none
    else none
  | _ => none

/-- The key a command line cancels. -/
def Value.cancelledKey : Value → Option String
  | .mapping [(k,payload)] => if k.asStr = some "cancel_timer" then payload.asStr else none
  | _ => none

/-- Every command line of the file. -/
def RawConfig.lines (raw : RawConfig) : List Value :=
  raw.scenes.entries.flatMap (fun scene => scene.2) ++
    raw.rules.entries.flatMap fun rule => rule.2.commands

/-- No line schedules a key under `__for:` or a numbered one under `__retry:`, and none cancels a
numbered key of either; the numbers count from one. -/
structure RawConfig.KeysApart (raw : RawConfig) : Prop where
  scheduled : ∀ v ∈ raw.lines, ∀ key, v.scheduledKey = some key →
    TimerKey.startsWith ⟨key⟩ forKeyPrefix = false ∧ ∀ n, ⟨key⟩ ≠ Engine.retryKey (n+1)
  cancelled : ∀ v ∈ raw.lines, ∀ key, v.cancelledKey = some key →
    ∀ n, ⟨key⟩ ≠ Engine.forKey (n+1) ∧ ⟨key⟩ ≠ Engine.retryKey (n+1)

/-- A line of such a file lowers to a command that stays apart. -/
theorem RawConfig.KeysApart.lowered {raw : RawConfig} (h : raw.KeysApart) {v : Value}
    (hv : v ∈ raw.lines) {lw : Lowerer} {context : String} {cmd : Command}
    (hc : (lw.command context v).value = some cmd) : cmd.Apart := by
  obtain ⟨k,verb,payload,rfl,hk,hl⟩ := Lowerer.command_lowered hc
  cases hl with
  | device _ target => exact .of_not_timer (by cases cmd <;> first | rfl | cases target)
  | scene => trivial
  | schedule merged timer after hverb hm hd =>
    apply h.scheduled _ hv timer.key
    simp only [Value.scheduledKey,hverb ▸ hk,if_true,hm,hd]
    rfl
  | cancel key hverb hn =>
    apply h.cancelled _ hv key
    simp only [Value.cancelledKey,hverb ▸ hk,if_true,hn]

variable {lib : Libraries} {π : HashOrder} {raw : RawConfig} {cfg : CompiledConfig}

open Resolve in
/-- Every command of an accepted config is what some line lowers to; what was noted on the way is
among the notes of the file. -/
theorem line_of_command (accepted : resolve lib π raw = .ok cfg) {c : Command}
    (hc : (∃ s ∈ cfg.scenes, c ∈ s.commands) ∨ ∃ r ∈ cfg.rules, c ∈ r.commands) :
    ∃ context, ∃ v ∈ raw.lines, ((lowerer lib raw).command context v).value = some c ∧
      ∀ n ∈ ((lowerer lib raw).command context v).notes, n ∈ notes lib raw := by
  obtain ⟨-,-,-,hs,hr,-⟩ := resolve_eq_ok accepted
  rcases hc with ⟨s,hm,hc⟩ | ⟨r,hm,hc⟩
  · rw [hs] at hm
    obtain ⟨body,he,hb⟩ := mem_scenes.mp hm
    rw [hb] at hc
    obtain ⟨v,hv,hl⟩ := List.mem_filterMap.mp hc
    have hmem : (s.name,body) ∈ raw.scenes.entries := List.mem_of_getElem? he
    refine ⟨_,v,List.mem_append_left _ (List.mem_flatMap.mpr ⟨_,hmem,hv⟩),hl,fun n hn => ?_⟩
    exact List.mem_append_left _
      (List.mem_flatMap.mpr ⟨_,hmem,List.mem_flatMap.mpr ⟨v,hv,hn⟩⟩)
  · rw [hr] at hm
    obtain ⟨entry,he,_,hl⟩ := mem_rules hm
    obtain ⟨v,hv,hc⟩ := commands_of_lowerRule hl hc
    refine ⟨_,v,List.mem_append_right _ (List.mem_flatMap.mpr ⟨_,he,hv⟩),hc,fun n hn => ?_⟩
    obtain ⟨i,hi⟩ := List.mem_iff_getElem?.mp he
    exact List.mem_append_right _ (List.mem_flatMap.mpr ⟨(entry,i),
      List.mem_zipIdx_iff_getElem?.mpr hi,
        notes_lowerRule (.inr (.inr (List.mem_flatMap.mpr ⟨v,hv,hn⟩)))⟩)

theorem commands_apart (accepted : resolve lib π raw = .ok cfg) (apart : raw.KeysApart) :
    (∀ s ∈ cfg.scenes, ∀ c ∈ s.commands, c.Apart) ∧ ∀ r ∈ cfg.rules, ∀ c ∈ r.commands, c.Apart := by
  constructor
  · intro s hm c hc
    obtain ⟨_,v,hv,hl,-⟩ := line_of_command accepted (.inl ⟨s,hm,hc⟩)
    exact apart.lowered hv hl
  · intro r hm c hc
    obtain ⟨_,v,hv,hl,-⟩ := line_of_command accepted (.inr ⟨r,hm,hc⟩)
    exact apart.lowered hv hl

variable {A N : Type} {b : Builders A N} {e : Engine A N}

/-- What holds of the commands of every scene of the config holds of those of the engine. -/
theorem Built.scenesIn (h : Built b cfg e) {user : Command → Prop}
    (hs : ∀ s ∈ cfg.scenes, ∀ c ∈ s.commands, user c)
    (nodup : (cfg.scenes.map CompiledScene.id).Nodup) : e.ScenesIn user := by
  intro scene cmds hl
  rw [h.scenes,CompiledConfig.sceneTable,HashMap.lookup_foldl_insert (by rwa [List.map_map])] at hl
  rcases hl with hl | ⟨-,hl⟩
  · obtain ⟨s,hm,he⟩ := List.mem_map.mp hl
    cases he
    exact hs s hm
  · cases hl

theorem Built.commandsApart (h : Built b cfg e)
    (accepted : resolve lib π raw = .ok cfg) (apart : raw.KeysApart) :
    e.CommandsIn Command.Apart := by
  obtain ⟨hscenes,hrules⟩ := commands_apart accepted apart
  refine ⟨?_,h.scenesIn hscenes ?_⟩
  · unfold Engine.RulesIn
    rwa [h.rules]
  · obtain ⟨-,-,-,hs,-⟩ := resolve_eq_ok accepted
    rw [hs]
    exact scenes_nodup lib raw

end Domiform
