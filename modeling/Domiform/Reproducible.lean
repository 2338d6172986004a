import Domiform.Bindings
import Domiform.Compile.Findings
import Domiform.Compile.Keys

/-! The order of the findings. Two compilations of one file differ in nothing but the order in which
they list the timers that nothing schedules. -/
namespace Domiform
open Library Checked

/-- The key a trigger waits for. -/
def Value.awaitedKey : Value → Option String
  | .mapping [(k,payload)] => if k.asStr = some "timer" then payload.asStr else none
  | _ => none

/-- A trigger of the file waits for the key, or a line cancels it. -/
def RawConfig.References (raw : RawConfig) (key : String) : Prop :=
  (∃ rule ∈ raw.rules.entries, rule.2.trigger.awaitedKey = some key) ∨
    ∃ v ∈ raw.lines, v.cancelledKey = some key

/-- The key is referred to, and no line of the file schedules it. -/
def RawConfig.Dangles (raw : RawConfig) (key : String) : Prop :=
  raw.References key ∧ ∀ v ∈ raw.lines, v.scheduledKey ≠ some key

namespace Lowerer
variable (lw : Lowerer) (context : String) {v : Value} {key : String}

/-- A trigger refers to the key it waits for. -/
theorem referencedKey_mem_trigger :
    .referencedKey key ∈ (lw.trigger context v).notes ↔ v.awaitedKey = some key := by
  constructor
  · intro hn
    by_contra other
    have clean : Note.NoError (· = .referencedKey key) := by rintro _ _ _ ⟨⟩
    have quiet : Quiet (· = .referencedKey key) (lw.trigger context v) := by
      refine (quiet_singleEntry clean context v _).of_bind_value ?_
      rintro ⟨verb,payload⟩ hv
      obtain ⟨k,rfl,hk⟩ := singleEntry_eq_some hv
      apply lw.quiet_triggerOf clean context
      · rintro rfl key' hs ⟨⟩
        exact other (by rw [Value.awaitedKey,if_pos hk,hs])
      · rintro s ⟨⟩
    exact quiet _ hn rfl
  · intro h
    unfold Value.awaitedKey at h
    split at h
    · split_ifs at h with hk
      simp [trigger,singleEntry,hk,triggerOf,asName,h,Checked.pure_bind,Checked.mem_notes_bind,
        Checked.note]
    · cases h

/-- A command that cancels a timer refers to its key. -/
theorem referencedKey_mem_command :
    .referencedKey key ∈ (lw.command context v).notes ↔ v.cancelledKey = some key := by
  constructor
  · intro hn
    by_contra other
    have clean : Note.NoError (· = .referencedKey key) := by rintro _ _ _ ⟨⟩
    have quiet : Quiet (· = .referencedKey key) (lw.command context v) := by
      refine (quiet_singleEntry clean context v _).of_bind_value ?_
      rintro ⟨verb,payload⟩ hv
      obtain ⟨k,rfl,hk⟩ := singleEntry_eq_some hv
      apply lw.quiet_commandOf clean context
      · rintro _ s _ ⟨⟩
      · rintro rfl key' hs ⟨⟩
        exact other (by rw [Value.cancelledKey,if_pos hk,hs])
      · rintro s ⟨⟩
    exact quiet _ hn rfl
  · intro h
    unfold Value.cancelledKey at h
    split at h
    · split_ifs at h with hk
      simp [command,singleEntry,hk,commandOf,asName,h,Checked.pure_bind,Checked.mem_notes_bind,
        Checked.note]
    · cases h

/-- A command that schedules a timer is noted with its key. -/
theorem scheduledKey_mem_command :
    .scheduledKey key ∈ (lw.command context v).notes ↔ v.scheduledKey = some key := by
  constructor
  · intro hn
    by_contra other
    have clean : Note.NoError (· = .scheduledKey key) := by rintro _ _ _ ⟨⟩
    have quiet : Quiet (· = .scheduledKey key) (lw.command context v) := by
      refine (quiet_singleEntry clean context v _).of_bind_value ?_
      rintro ⟨verb,payload⟩ hv
      obtain ⟨k,rfl,hk⟩ := singleEntry_eq_some hv
      apply lw.quiet_commandOf clean context
      · rintro rfl s hs ⟨⟩
        obtain ⟨merged,hm,hd⟩ := payload_eq_some hs
        exact other (by simp [Value.scheduledKey,hk,hm,hd])
      · rintro _ key' _ ⟨⟩
      · rintro s ⟨⟩
    exact quiet _ hn rfl
  · intro h
    unfold Value.scheduledKey at h
    split at h
    · rename_i k payload
      split_ifs at h with hk
      split at h
      · rename_i merged hm
        obtain ⟨s,hs,rfl⟩ := Option.map_eq_some_iff.mp h
        have hp : lw.payload RawScheduleTimer.decode payload "schedule_timer" context = pure s := by
          simp only [Lowerer.payload,hm,hs]
        simp only [command,singleEntry,hk,Checked.pure_bind,commandOf_scheduleTimer,hp]
        exact mem_notes_bind.mpr (.inl (List.mem_singleton_self _))
      · cases h
    · cases h

end Lowerer

namespace Resolve
variable {lib : Libraries} {raw : RawConfig}

/-- A rule has such a note from its trigger or from its commands. -/
theorem mem_lowerRule_iff {lw : Lowerer} {name : String} {id : ℕ} {rule : RawRule} {n : Note}
    (spared : Note.NoError (· = n)) : n ∈ (lowerRule lw name id rule).notes ↔
      n ∈ (lw.trigger (ruleContext name) rule.trigger).notes ∨
        n ∈ (lw.commands (ruleContext name) rule.commands).notes := by
  have condition (c : Value) : n ∉ (lw.condition (ruleContext name) c).notes :=
    fun hn => lw.quiet_condition _ spared c n hn rfl
  have duration (d : String) (t : Trigger) :
      n ∉ (Lowerer.forDuration d t (ruleContext name)).notes :=
    fun hn => Lowerer.quiet_forDuration spared _ d t n hn rfl
  unfold lowerRule
  cases rule.condition with
  | none =>
    cases rule.forDuration <;> dsimp only <;> split <;>
      simp [duration,Checked.silent]
  | some c =>
    cases rule.forDuration <;> dsimp only <;> split <;>
      simp [condition,duration,Checked.silent]

/-- A note that triggers and lines make whatever their place in the file. -/
theorem mem_notes_iff {n : Note} (spared : Note.NoError (· = n)) {T L : Value → Prop}
    (trigger : ∀ context v, n ∈ ((lowerer lib raw).trigger context v).notes ↔ T v)
    (line : ∀ context v, n ∈ ((lowerer lib raw).command context v).notes ↔ L v) :
    n ∈ notes lib raw ↔ (∃ rule ∈ raw.rules.entries, T rule.2.trigger) ∨ ∃ v ∈ raw.lines, L v := by
  have lines (context : String) (vs : List Value) :
      n ∈ ((lowerer lib raw).commands context vs).notes ↔ ∃ v ∈ vs, L v := by
    simp only [Lowerer.commands,Checked.collect,List.mem_flatMap,line]
  have scenes : n ∈ raw.scenes.entries.flatMap (fun entry => (lowerScene lib raw entry).notes) ↔
      ∃ scene ∈ raw.scenes.entries, ∃ v ∈ scene.2, L v := by
    simp only [List.mem_flatMap,lowerScene,lines]
  have rules : n ∈ (lowerRules lib raw).notes ↔ ∃ rule ∈ raw.rules.entries,
      T rule.2.trigger ∨ ∃ v ∈ rule.2.commands, L v := by
    simp only [lowerRules,Checked.collect,List.mem_flatMap,mem_lowerRule_iff spared,trigger,lines]
    constructor
    · rintro ⟨⟨rule,i⟩,hr,h⟩
      exact ⟨rule,List.fst_mem_of_mem_zipIdx hr,h⟩
    · rintro ⟨rule,hr,h⟩
      obtain ⟨i,hi⟩ := List.mem_iff_getElem?.mp hr
      exact ⟨(rule,i),List.mem_zipIdx_iff_getElem?.mpr hi,h⟩
  rw [notes,List.mem_append,scenes,rules]
  simp only [RawConfig.lines,List.mem_append,List.mem_flatMap]
  constructor
  · rintro (⟨scene,hs,v,hv,h⟩ | ⟨rule,hr,h | ⟨v,hv,h⟩⟩)
    · exact .inr ⟨v,.inl ⟨scene,hs,hv⟩,h⟩
    · exact .inl ⟨rule,hr,h⟩
    · exact .inr ⟨v,.inr ⟨rule,hr,hv⟩,h⟩
  · rintro (⟨rule,hr,h⟩ | ⟨v,⟨scene,hs,hv⟩ | ⟨rule,hr,hv⟩,h⟩)
    · exact .inr ⟨rule,hr,.inl h⟩
    · exact .inl ⟨scene,hs,v,hv,h⟩
    · exact .inr ⟨rule,hr,.inr ⟨v,hv,h⟩⟩

theorem referencedKey_mem_notes {key : String} :
    .referencedKey key ∈ notes lib raw ↔ raw.References key :=
  mem_notes_iff (by rintro _ _ _ ⟨⟩) (fun _ _ => Lowerer.referencedKey_mem_trigger _ _)
    fun _ _ => Lowerer.referencedKey_mem_command _ _

theorem scheduledKey_mem_notes {key : String} :
    .scheduledKey key ∈ notes lib raw ↔ ∃ v ∈ raw.lines, v.scheduledKey = some key := by
  have clean : Note.NoError (· = .scheduledKey key) := by rintro _ _ _ ⟨⟩
  rw [mem_notes_iff clean (T := fun _ => False)
    (fun context v => iff_of_false (fun hn => ?_) id)
    fun _ _ => Lowerer.scheduledKey_mem_command _ _]
  · simp
  · have quiet : Quiet (· = .scheduledKey key) ((lowerer lib raw).trigger context v) :=
      (Lowerer.quiet_singleEntry clean context v _).of_bind fun _ =>
        Lowerer.quiet_triggerOf clean _ context _ _ (by rintro _ _ _ ⟨⟩) (by rintro _ ⟨⟩)
    exact quiet _ hn rfl

/-- The warnings about timers come in one order only if there is one such warning at most. -/
theorem danglingTimers_const_iff : (∀ π π', danglingTimers π (notes lib raw) =
      danglingTimers π' (notes lib raw)) ↔
    ∀ k k', raw.Dangles k → raw.Dangles k' → k = k' := by
  have named : Function.Injective fun k => Diagnostic.warning "E_DANGLING_TIMER"
      ("timer key '" ++ k ++ "' is referenced but never scheduled") := danglingTimer_injective
  unfold danglingTimers
  simp only [named.list_map.eq_iff]
  rw [HashOrder.filter_shuffle_iff 0 _ (List.nodup_dedup _)]
  simp only [List.mem_dedup,List.mem_filterMap,decide_eq_true_eq,scheduledKey_mem_notes,
    RawConfig.Dangles,not_exists,not_and]
  constructor
  · intro h k k' hk hk'
    have hn : .referencedKey k ∈ notes lib raw := referencedKey_mem_notes.mpr hk.1
    have hn' : .referencedKey k' ∈ notes lib raw := referencedKey_mem_notes.mpr hk'.1
    exact h k ⟨_,hn,rfl⟩ k' ⟨_,hn',rfl⟩ hk.2 hk'.2
  · rintro h k ⟨n,hn,hk⟩ k' ⟨n',hn',hk'⟩ hs hs'
    cases n <;> cases hk
    cases n' <;> cases hk'
    exact h k k' ⟨referencedKey_mem_notes.mp hn,hs⟩ ⟨referencedKey_mem_notes.mp hn',hs'⟩

/-- Nothing else among the findings depends on the order. -/
theorem diagnostics_eq_iff {π π' : HashOrder} : diagnostics lib raw π = diagnostics lib raw π' ↔
    danglingTimers π (notes lib raw) = danglingTimers π' (notes lib raw) := by
  simp only [diagnostics,List.append_left_inj,List.append_right_inj]

/-- The warnings that differ are no errors. -/
theorem isError_danglingTimers {π : HashOrder} {ns : List Note} :
    (danglingTimers π ns).any Diagnostic.isError = false := by
  simp [danglingTimers,Diagnostic.isError,Diagnostic.warning]

end Resolve

open Resolve

/-- A file is accepted in every order or in none. -/
theorem isError_diagnostics (lib : Libraries) (raw : RawConfig) (π π' : HashOrder) :
    (diagnostics lib raw π).any Diagnostic.isError =
      (diagnostics lib raw π').any Diagnostic.isError := by
  simp only [diagnostics,List.any_append,isError_danglingTimers]

/-- The result of a compilation tells all of its findings. -/
theorem resolve_eq_iff {lib : Libraries} {raw : RawConfig} {π π' : HashOrder} :
    resolve lib π raw = resolve lib π' raw ↔ diagnostics lib raw π = diagnostics lib raw π' := by
  unfold resolve
  rw [isError_diagnostics lib raw π π']
  constructor
  · intro h
    split_ifs at h
    · exact Except.error.inj h
    · exact congrArg CompiledConfig.warnings (Except.ok.inj h)
  · intro h
    rw [h]

/-- A file compiles to the same result in every order of the hash collections exactly when one timer
key at most is referred to and never scheduled. -/
theorem compilation_is_deterministic_iff (lib : Libraries) (raw : RawConfig) :
    (∀ π π', resolve lib π raw = resolve lib π' raw) ↔
      ∀ k k', raw.Dangles k → raw.Dangles k' → k = k' := by
  simp only [resolve_eq_iff,diagnostics_eq_iff]
  exact danglingTimers_const_iff

/-- Two rules wait for timers that nothing schedules. -/
def restlessConfig : RawConfig where
  system := .default
  adapters := .single "bus" ⟨"virtual",.mapping []⟩
  devices := .single "lamp" ⟨"bus",none,none,["switch"],.empty,none,none,none⟩
  scenes := .empty
  schedules := .empty
  rules := .pair (show "doze" < "nap" by decide)
    { trigger := .mapping [(.string "timer",.string "doze")]
      condition := none
      forDuration := none
      commands := [.mapping [(.string "turn_off",.string "lamp")]] }
    { trigger := .mapping [(.string "timer",.string "nap")]
      condition := none
      forDuration := none
      commands := [.mapping [(.string "turn_on",.string "lamp")]] }

/-- The two warnings change places with the order of the set that holds the keys. -/
theorem warnings_come_in_hash_order : ∃ cfg cfg',
    resolve plainLibraries .identity restlessConfig = .ok cfg ∧
      resolve plainLibraries .reversed restlessConfig = .ok cfg' ∧
      cfg.warnings = ["doze","nap"].map danglingTimer ∧
      cfg'.warnings = ["nap","doze"].map danglingTimer :=
  ⟨_,_,rfl,rfl,by decide,by decide⟩

end Domiform
