import Domiform.Compile.Accepted

/-! Findings. Lowering and the plugins only find errors, so the warnings of an accepted config are
those of the whole-program lints; a timer that is said to dangle is scheduled by no command. -/
namespace Domiform
open Library Checked

/-- A finding that is no error. -/
def Note.Warns (n : Note) : Prop := ∃ d, n = .diagnostic d ∧ d.isError = false

/-- What no error is. -/
def Note.NoError (bad : Note → Prop) : Prop :=
  ∀ code message context, ¬bad (.diagnostic ((Diagnostic.error code message).place context))

/-- A pass whose findings are errors, all of them. -/
abbrev Strict {α : Type} (m : Lower α) : Prop := Quiet Note.Warns m

namespace Lowerer
variable {α : Type}

section Quiet
variable {bad : Note → Prop} (clean : Note.NoError bad) (lw : Lowerer) (context : String)
include clean

theorem quiet_error (code message : String) :
    Quiet bad (error code message context : Lower α) := .of_fail (clean code message context)

theorem quiet_badNode (node : String) : Quiet bad (badNode node context : Lower α) :=
  quiet_error clean context _ _

theorem quiet_singleEntry (v : Value) (node : String) : Quiet bad (singleEntry v node context) := by
  unfold singleEntry
  split
  · split
    · exact .of_pure _
    · exact quiet_badNode clean context node
  · exact quiet_badNode clean context node

theorem quiet_asName (v : Value) (node : String) : Quiet bad (asName v node context) := by
  unfold asName
  split
  · exact .of_pure _
  · exact quiet_error clean context _ _

theorem quiet_asFlag (v : Value) (node : String) : Quiet bad (asFlag v node context) := by
  unfold asFlag
  split
  · exact .of_pure _
  · exact quiet_error clean context _ _

theorem quiet_payload (decode : Value → Option α) (v : Value) (node : String) :
    Quiet bad (lw.payload decode v node context) := by
  unfold payload
  split
  · exact quiet_error clean context _ _
  · split
    · exact .of_pure _
    · exact quiet_error clean context _ _

theorem quiet_resolveDevice (name : String) : Quiet bad (lw.resolveDevice name context) := by
  unfold resolveDevice
  split
  · exact .of_pure _
  · exact quiet_error clean context _ _

theorem quiet_requireCap (id : DeviceId) (name : String) (cap : CapabilityKind) (usage : String) :
    Quiet bad (lw.requireCap id name cap usage context) :=
  .of_ite (.of_pure _) (.of_ite (.of_pure _) (.of_note (clean _ _ context)))

theorem quiet_parseCmpOp (s : String) : Quiet bad (parseCmpOp s context) :=
  .of_ite (.of_pure _) (.of_ite (.of_pure _) (.of_ite (.of_pure _) (.of_ite (.of_pure _)
    (.of_ite (.of_pure _) (.of_ite (.of_pure _) (quiet_error clean context _ _))))))

theorem quiet_shapedCapability (shape : CapabilityKind → Bool) (code message name : String) :
    Quiet bad (shapedCapability shape code message name context) := by
  unfold shapedCapability
  split
  · exact .of_ite (.of_pure _) (quiet_error clean context _ _)
  · exact quiet_error clean context _ _

theorem quiet_parseDuration (s : String) : Quiet bad (parseDuration s context) := by
  unfold parseDuration
  split
  · exact .of_pure _
  · exact quiet_error clean context _ _

theorem quiet_parseTransition (s : Option String) : Quiet bad (parseTransition s context) := by
  unfold parseTransition
  split
  · exact (quiet_parseDuration clean context _).of_bind fun _ => .of_pure _
  · exact .of_pure _

theorem quiet_parseTime (s : String) : Quiet bad (parseTime s context) := by
  unfold parseTime
  split
  · exact .of_pure _
  · exact quiet_error clean context _ _

theorem quiet_parseColor (v : Value) : Quiet bad (parseColor v context) := by
  unfold parseColor
  dsimp only
  split
  · split
    · exact .of_pure _
    · exact quiet_error clean context _ _
  · split
    · split
      · exact .of_ite (.of_pure _) (quiet_error clean context _ _)
      · exact quiet_error clean context _ _
    · exact quiet_error clean context _ _

theorem quiet_parseColorTemperature (raw : RawSetColorTemperature) :
    Quiet bad (parseColorTemperature raw context) := by
  unfold parseColorTemperature
  split
  · exact quiet_error clean context _ _
  · exact quiet_error clean context _ _
  · exact .of_ite (.of_pure _) (quiet_error clean context _ _)
  · exact .of_ite (.of_pure _) (quiet_error clean context _ _)

theorem quiet_resolveEvent (device : DeviceId) (devName event : String) :
    Quiet bad (lw.resolveEvent device devName event context) := by
  unfold resolveEvent
  split
  · exact .of_silent
  · split
    · exact .of_pure _
    · exact quiet_error clean context _ _

theorem quiet_crossBound (above below : Option ℤ) : Quiet bad (crossBound above below context) := by
  unfold crossBound
  split
  · exact quiet_error clean context _ _
  · exact quiet_error clean context _ _
  · exact .of_pure _
  · exact .of_pure _

variable {context} in
/-- A payload that names a device, and what is made of the two. -/
theorem quiet_onDevice {γ : Type} {decode : Value → Option α} {v : Value} {node : String}
    {device : α → String} {f : α → DeviceId → Lower γ} (hf : ∀ a d, Quiet bad (f a d)) :
    Quiet bad (lw.payload decode v node context >>= fun a =>
      lw.resolveDevice (device a) context >>= f a) :=
  (lw.quiet_payload clean context decode v node).of_bind fun a =>
    (lw.quiet_resolveDevice clean context (device a)).of_bind (hf a)

variable {context} in
/-- A capability that the device needs comes before the rest. -/
theorem quiet_onCap {γ : Type} {id : DeviceId} {name : String} {cap : CapabilityKind}
    {usage : String} {m : Lower γ} (hm : Quiet bad m) :
    Quiet bad (lw.requireCap id name cap usage context >>= fun _ => m) :=
  (lw.quiet_requireCap clean context id name cap usage).of_bind fun _ => hm

/-- Only a timer trigger refers to a key, and only a schedule trigger to a schedule. -/
theorem quiet_triggerOf_known (verb : String) (payload : Value)
    (timer : verb = "timer" → ∀ key, payload.asStr = some key → ¬bad (.referencedKey key))
    (schedule : verb = "schedule" → ∀ name s, payload.asStr = some name →
      lw.scheduleIndex.lookup name = some s → ¬bad (.referencedSchedule s)) :
    Quiet bad (lw.triggerOf verb payload context) := by
  unfold triggerOf
  refine .of_ite ((quiet_asName clean context _ _).of_bind fun spec => ?_) (.of_ite ?_ (.of_ite ?_
    (.of_ite ?_ (.ite (fun ht => ?_) fun _ => .ite (fun hs => ?_) fun _ => .of_ite ?_
      (quiet_error clean context _ _)))))
  · split
    · exact quiet_error clean context _ _
    · exact (lw.quiet_resolveDevice clean context _).of_bind fun _ =>
        (lw.quiet_resolveEvent clean context _ _ _).of_bind fun _ => .of_pure _
  · exact lw.quiet_onDevice clean fun _ _ =>
      (quiet_shapedCapability clean context _ _ _ _).of_bind fun _ =>
        lw.quiet_onCap clean (.of_pure _)
  · exact lw.quiet_onDevice clean fun _ _ =>
      (quiet_shapedCapability clean context _ _ _ _).of_bind fun _ =>
        lw.quiet_onCap clean ((quiet_crossBound clean context _ _).of_bind fun _ => .of_pure _)
  · exact lw.quiet_onDevice clean fun _ _ =>
      (quiet_shapedCapability clean context _ _ _ _).of_bind fun _ =>
        lw.quiet_onCap clean (.of_pure _)
  · exact (quiet_asName clean context _ _).of_bind_value fun key hk =>
      (Quiet.of_note (timer ht key (asName_eq_some hk))).of_bind fun _ => .of_pure _
  · refine (quiet_asName clean context _ _).of_bind_value fun name hn => ?_
    split
    · rename_i known
      exact (Quiet.of_note (schedule hs name _ (asName_eq_some hn) known)).of_bind fun _ => .of_pure _
    · exact quiet_error clean context _ _
  · exact (quiet_asName clean context _ _).of_bind fun _ =>
      .of_ite (.of_pure _) ((lw.quiet_resolveDevice clean context _).of_bind fun _ => .of_pure _)

theorem quiet_triggerOf (verb : String) (payload : Value)
    (timer : verb = "timer" → ∀ key, payload.asStr = some key → ¬bad (.referencedKey key))
    (schedule : ∀ s, ¬bad (.referencedSchedule s)) : Quiet bad (lw.triggerOf verb payload context) :=
  lw.quiet_triggerOf_known clean context verb payload timer fun _ _ s _ _ => schedule s

theorem quiet_leafCondition (verb : String) (payload : Value) :
    Quiet bad (lw.leafCondition verb payload context) := by
  unfold leafCondition
  refine .of_ite ((quiet_asFlag clean context _ _).of_bind fun _ => .of_pure _) ?_
  refine .of_ite (lw.quiet_onDevice clean fun _ _ => lw.quiet_onCap clean (.of_pure _)) ?_
  refine .of_ite (lw.quiet_onDevice clean fun _ _ => lw.quiet_onCap clean (.of_pure _)) ?_
  refine .of_ite (lw.quiet_onDevice clean fun _ _ =>
    (quiet_shapedCapability clean context _ _ _ _).of_bind fun _ =>
      (quiet_parseCmpOp clean context _).of_bind fun _ => lw.quiet_onCap clean (.of_pure _)) ?_
  refine .of_ite (lw.quiet_onDevice clean fun _ _ => lw.quiet_onCap clean
    ((quiet_parseColor clean context _).of_bind fun _ => .of_pure _)) ?_
  refine .of_ite ((quiet_asName clean context _ _).of_bind fun _ =>
    (quiet_parseTime clean context _).of_bind fun _ => .of_pure _) ?_
  exact .of_ite ((quiet_asName clean context _ _).of_bind fun _ =>
    (quiet_parseTime clean context _).of_bind fun _ => .of_pure _) (quiet_error clean context _ _)

omit clean in
mutual
theorem quiet_condition (clean : Note.NoError bad) (v : Value) : Quiet bad (lw.condition context v) := by
  match v with
  | .mapping [(k,payload)] =>
    rw [condition]
    cases k.asStr with
    | none => exact quiet_badNode clean context _
    | some verb =>
      exact .of_ite ((quiet_conditionList clean verb payload).of_bind fun _ => .of_pure _)
        (.of_ite ((quiet_conditionList clean verb payload).of_bind fun _ => .of_pure _)
          (.of_ite ((quiet_condition clean payload).of_bind fun _ => .of_pure _)
            (lw.quiet_leafCondition clean context verb payload)))
  | .mapping [] | .mapping (_ :: _ :: _) | .null | .bool _ | .number _ | .string _
  | .sequence _ | .tagged _ _ => exact quiet_badNode clean context _
termination_by structural v
theorem quiet_conditionList (clean : Note.NoError bad) (node : String) (v : Value) :
    Quiet bad (lw.conditionList context node v) := by
  match v with
  | .tagged _ v =>
    rw [conditionList]
    exact quiet_conditionList clean node v
  | .sequence items =>
    rw [conditionList]
    exact quiet_conditionItems clean items
  | .null | .bool _ | .number _ | .string _ | .mapping _ => exact quiet_error clean context _ _
termination_by structural v
theorem quiet_conditionItems (clean : Note.NoError bad) (items : List Value) :
    Quiet bad (lw.conditionItems context items) := by
  match items with
  | [] => exact .of_pure _
  | v :: vs =>
    rw [conditionItems]
    intro n hn
    rcases List.mem_append.mp hn with hn | hn
    · exact quiet_condition clean v n hn
    · exact quiet_conditionItems clean vs n hn
termination_by structural items
end

/-- Only the timer commands schedule or refer to a key, and only an activation uses a scene. -/
theorem quiet_commandOf_known (verb : String) (payload : Value)
    (scheduled : verb = "schedule_timer" → ∀ s,
      (lw.payload RawScheduleTimer.decode payload "schedule_timer" context).value = some s →
        ¬bad (.scheduledKey s.key))
    (cancelled : verb = "cancel_timer" → ∀ key, payload.asStr = some key → ¬bad (.referencedKey key))
    (scene : verb = "activate_scene" → ∀ name s, payload.asStr = some name →
      lw.sceneIndex.lookup name = some s → ¬bad (.usedScene s)) :
    Quiet bad (lw.commandOf verb payload context) := by
  unfold commandOf
  -- the verbs that command a device, in order, then the three that do not
  refine .of_ite ((quiet_asName clean context _ _).of_bind fun _ =>
    (lw.quiet_resolveDevice clean context _).of_bind fun _ => lw.quiet_onCap clean (.of_pure _)) ?_
  refine .of_ite ((quiet_asName clean context _ _).of_bind fun _ =>
    (lw.quiet_resolveDevice clean context _).of_bind fun _ => lw.quiet_onCap clean (.of_pure _)) ?_
  refine .of_ite (lw.quiet_onDevice clean fun _ _ => lw.quiet_onCap clean
    ((quiet_parseTransition clean context _).of_bind fun _ => .of_pure _)) ?_
  refine .of_ite (lw.quiet_onDevice clean fun _ _ => lw.quiet_onCap clean (.of_pure _)) ?_
  refine .of_ite (lw.quiet_onDevice clean fun _ _ => lw.quiet_onCap clean (.of_pure _)) ?_
  refine .of_ite (lw.quiet_onDevice clean fun _ _ => lw.quiet_onCap clean
    ((quiet_parseColor clean context _).of_bind fun _ =>
      (quiet_parseTransition clean context _).of_bind fun _ => .of_pure _)) ?_
  refine .of_ite (lw.quiet_onDevice clean fun _ _ => lw.quiet_onCap clean
    ((quiet_parseColorTemperature clean context _).of_bind fun _ =>
      (quiet_parseTransition clean context _).of_bind fun _ => .of_pure _)) ?_
  refine .ite (fun ha => (quiet_asName clean context _ _).of_bind_value fun name hn => ?_) fun _ => ?_
  · split
    · rename_i known
      exact (Quiet.of_note (scene ha name _ (asName_eq_some hn) known)).of_bind fun _ => .of_pure _
    · exact quiet_error clean context _ _
  refine .ite (fun hs => (lw.quiet_payload clean context _ _ _).of_bind_value fun s h =>
    (Quiet.of_note (scheduled hs s h)).of_bind fun _ =>
      (quiet_parseDuration clean context _).of_bind fun _ => .of_pure _) fun _ => ?_
  refine .ite (fun hc => (quiet_asName clean context _ _).of_bind_value fun key h =>
    (Quiet.of_note (cancelled hc key (asName_eq_some h))).of_bind fun _ => .of_pure _) fun _ => ?_
  exact .of_ite (lw.quiet_onDevice clean fun _ _ => lw.quiet_onCap clean (.of_pure _))
    (quiet_error clean context _ _)

theorem quiet_commandOf (verb : String) (payload : Value)
    (scheduled : verb = "schedule_timer" → ∀ s,
      (lw.payload RawScheduleTimer.decode payload "schedule_timer" context).value = some s →
        ¬bad (.scheduledKey s.key))
    (cancelled : verb = "cancel_timer" → ∀ key, payload.asStr = some key → ¬bad (.referencedKey key))
    (scene : ∀ s, ¬bad (.usedScene s)) : Quiet bad (lw.commandOf verb payload context) :=
  lw.quiet_commandOf_known clean context verb payload scheduled cancelled fun _ _ s _ _ => scene s

theorem quiet_forDuration (raw : String) (trigger : Trigger) :
    Quiet bad (forDuration raw trigger context) :=
  .of_ite (quiet_error clean context _ _) (quiet_parseDuration clean context _)

end Quiet

section Strict
variable (lw : Lowerer) (context : String)

theorem not_warns_error : Note.NoError Note.Warns := by
  rintro code message context ⟨d,hd,he⟩
  cases hd
  cases he

theorem not_warns_lint {n : Note} (h : n.diagnostic? = none) : ¬n.Warns := by
  rintro ⟨d,rfl,-⟩
  cases h

theorem strict_trigger (v : Value) : Strict (lw.trigger context v) :=
  (quiet_singleEntry not_warns_error context v _).of_bind fun _ =>
    lw.quiet_triggerOf not_warns_error context _ _ (fun _ _ _ => not_warns_lint rfl)
      fun _ => not_warns_lint rfl

theorem strict_commands (raws : List Value) : Strict (lw.commands context raws) :=
  .collect fun _ _ => (quiet_singleEntry not_warns_error context _ _).of_bind fun _ =>
    lw.quiet_commandOf not_warns_error context _ _ (fun _ _ _ => not_warns_lint rfl)
      (fun _ _ _ => not_warns_lint rfl) fun _ => not_warns_lint rfl

end Strict

section Scheduled
variable (lw : Lowerer) (context : String)

theorem commandOf_scheduleTimer (payload : Value) :
    lw.commandOf "schedule_timer" payload context = (do
      let s ← lw.payload RawScheduleTimer.decode payload "schedule_timer" context
      Checked.note (.scheduledKey s.key)
      let after ← parseDuration s.after context
      pure (.scheduleTimer ⟨s.key⟩ after)) := rfl

/-- The key of a command that schedules a timer is noted. -/
theorem scheduledKey_noted {v : Value} {key : TimerKey} {after : Millis}
    (h : (lw.command context v).value = some (.scheduleTimer key after)) :
    Note.scheduledKey key.name ∈ (lw.command context v).notes := by
  obtain ⟨⟨verb,payload⟩,hv,hc⟩ := Checked.value_bind_eq_some.mp h
  refine Checked.mem_notes_bind.mpr (.inr ⟨_,hv,?_⟩)
  dsimp only at hc ⊢
  cases commandOf_lowered lw verb context payload _ hc with
  | device _ target => cases target
  | schedule _ timer _ hverb =>
    subst hverb
    rw [commandOf_scheduleTimer] at hc ⊢
    obtain ⟨s,hs,hc⟩ := Checked.value_bind_eq_some.mp hc
    obtain ⟨_,-,hc⟩ := Checked.value_bind_eq_some.mp hc
    obtain ⟨_,-,hc⟩ := Checked.value_bind_eq_some.mp hc
    refine Checked.mem_notes_bind.mpr (.inr ⟨s,hs,Checked.mem_notes_bind.mpr (.inl ?_)⟩)
    rw [← TimerKey.mk.inj (Command.scheduleTimer.inj (Option.some.inj hc)).1]
    exact List.mem_singleton_self _

end Scheduled
end Lowerer

namespace Resolve

theorem strict_lowerRule (lw : Lowerer) (name : String) (id : ℕ) (raw : RawRule) :
    Strict (lowerRule lw name id raw) := by
  have hnotes {condition : Lower Condition} (hc : Strict condition) :
      ∀ n ∈ (lw.trigger (ruleContext name) raw.trigger).notes ++ condition.notes ++
        (lw.commands (ruleContext name) raw.commands).notes, ¬n.Warns := by
    intro n hn
    rcases List.mem_append.mp hn with hn | hn
    · rcases List.mem_append.mp hn with hn | hn
      · exact lw.strict_trigger _ _ n hn
      · exact hc n hn
    · exact lw.strict_commands _ _ n hn
  have hduration {notes : List Note} {duration : Lower Millis} (hn : ∀ n ∈ notes, ¬n.Warns)
      (hd : Strict duration) : ∀ n ∈ notes ++ duration.notes, ¬n.Warns := by
    intro n hm
    rcases List.mem_append.mp hm with hm | hm
    · exact hn n hm
    · exact hd n hm
  unfold lowerRule
  cases raw.condition with
  | none =>
    dsimp only
    split
    · refine hduration (hnotes (.of_pure Condition.always)) ?_
      split
      · exact Lowerer.quiet_forDuration Lowerer.not_warns_error _ _ _
      · exact .of_silent
    · exact hnotes (.of_pure Condition.always)
  | some c =>
    dsimp only
    split
    · refine hduration (hnotes (lw.quiet_condition _ Lowerer.not_warns_error c)) ?_
      split
      · exact Lowerer.quiet_forDuration Lowerer.not_warns_error _ _ _
      · exact .of_silent
    · exact hnotes (lw.quiet_condition _ Lowerer.not_warns_error c)

theorem not_warns_of_mem_notes {lib : Libraries} {raw : RawConfig} :
    ∀ n ∈ notes lib raw, ¬n.Warns := by
  intro n hn
  rcases List.mem_append.mp hn with hn | hn
  · obtain ⟨entry,-,hn⟩ := List.mem_flatMap.mp hn
    exact (lowerer lib raw).strict_commands _ _ n hn
  · exact Quiet.collect (fun _ _ => strict_lowerRule _ _ _ _) n hn

/-- The codes of the warnings, that of the dangling timers aside. -/
def lintCodes : List String :=
  ["E_INERT_DEVICE","E_UNUSED_ADAPTER","E_EMPTY_EXPOSE","E_UNUSED_SCENE","E_UNUSED_SCHEDULE",
    "E_NO_DEVICES"]

/-- A finding of a pass over something the file declares: an error, or a lint. -/
def Finding (d : Diagnostic) : Prop := d.isError = true ∨ d.code ∈ lintCodes

/-- An error, or a lint with one of the codes. -/
def FindingOf (codes : List String) (d : Diagnostic) : Prop := d.isError = true ∨ d.code ∈ codes

section Codes
variable {codes : List String}

theorem FindingOf.error (code message context : String) :
    FindingOf codes ((Diagnostic.error code message).place context) := .inl rfl

theorem FindingOf.lint {code : String} (h : code ∈ codes) (message context : String) :
    FindingOf codes ((Diagnostic.warning code message).place context) := .inr h

theorem FindingOf.finding {d : Diagnostic} (h : FindingOf codes d) (lints : codes ⊆ lintCodes) :
    Finding d := h.imp_right fun hc => lints hc

theorem FindingOf.code {d : Diagnostic} (h : FindingOf codes d) (warns : d.isError = false) :
    d.code ∈ codes := h.resolve_left (by simp [warns])

theorem finding_nil : ∀ d ∈ ([] : List Diagnostic), FindingOf codes d :=
  fun _ hd => absurd hd List.not_mem_nil

theorem finding_singleton {d : Diagnostic} (h : FindingOf codes d) : ∀ d' ∈ [d], FindingOf codes d' :=
  List.forall_mem_singleton.mpr h

theorem finding_append {xs ys : List Diagnostic} (hx : ∀ d ∈ xs, FindingOf codes d)
    (hy : ∀ d ∈ ys, FindingOf codes d) : ∀ d ∈ xs ++ ys, FindingOf codes d :=
  List.forall_mem_append.mpr ⟨hx,hy⟩

end Codes

theorem finding_adapterDiagnostics (lib : Libraries) (entry : String × RawAdapter) :
    ∀ d ∈ adapterDiagnostics lib entry, FindingOf [] d := by
  have hbad (p : Plugin) : ∀ d ∈ [p.badConfig lib entry.2.config (adapterContext entry.1)],
      FindingOf [] d := finding_singleton (.error _ _ _)
  have hsocket (p : Plugin) (what : String) : ∀ d ∈ p.validateWebSocket lib what entry.2.config
      (adapterContext entry.1), FindingOf [] d := by
    unfold Plugin.validateWebSocket
    split
    · exact hbad p
    · split
      · exact finding_nil
      · exact finding_singleton (.error _ _ _)
  unfold adapterDiagnostics
  split
  · exact finding_singleton (.error _ _ _)
  · rename_i p _
    cases p with
    | zigbee2mqtt =>
      rw [Plugin.validateConfig]
      split
      · exact hbad _
      · split
        · exact finding_singleton (.error _ _ _)
        · exact finding_nil
    | matter => exact hsocket .matter _
    | zwavejs => exact hsocket .zwavejs _
    | mockNorthbound =>
      rw [Plugin.validateConfig]
      split
      · exact hbad _
      · split
        · exact finding_nil
        · exact finding_singleton (.error _ _ _)
      · exact finding_nil
    | mock | virtualDevice => exact finding_nil

theorem finding_addressDiagnostics (adapters : List AdapterDef) (device : DeviceDef) :
    ∀ d ∈ addressDiagnostics adapters device, FindingOf [] d := by
  have hnode (p : Plugin) (origin : String) (bound : ℕ) : ∀ d ∈ p.validateNodeId origin bound device
      (deviceContext device.name), FindingOf [] d := by
    unfold Plugin.validateNodeId
    split
    · exact finding_singleton (.error _ _ _)
    · split
      · exact finding_singleton (.error _ _ _)
      · exact finding_nil
  unfold addressDiagnostics
  split
  · rename_i p _
    cases p with
    | zigbee2mqtt =>
      rw [Plugin.validateDevice]
      split
      · exact finding_singleton (.error _ _ _)
      · exact finding_nil
    | matter => exact hnode .matter _ _
    | zwavejs => exact hnode .zwavejs _ _
    | mock | mockNorthbound | virtualDevice => exact finding_nil
  · exact finding_nil

theorem finding_deviceDiagnostics (adapterIndex : HashMap String ℕ) (name : String)
    (raw : RawDevice) : ∀ d ∈ deviceDiagnostics adapterIndex name raw,
      FindingOf ["E_INERT_DEVICE"] d := by
  refine finding_append (finding_append ?_ fun d hd => ?_) ?_
  · split
    · exact finding_nil
    · exact finding_singleton (.error _ _ _)
  · obtain ⟨_,-,rfl⟩ := List.mem_map.mp hd
    exact .error _ _ _
  · split
    · exact finding_singleton (.lint (by decide) _ _)
    · exact finding_nil

theorem finding_devicePass (raw : RawConfig) : ∀ d ∈ (devicePass raw).diags,
    FindingOf ["E_INERT_DEVICE"] d := by
  unfold devicePass
  induction raw.devices.entries using List.reverseRecOn with
  | nil => exact finding_nil
  | append_singleton entries entry ih =>
    rw [resolveDevices_concat]
    have hd := finding_append ih (finding_deviceDiagnostics (Resolve.adapterIndex raw) entry.1 entry.2)
    unfold resolveDevice
    dsimp only
    split
    · exact hd
    · exact hd

theorem finding_desugarForms {context : String} {forms : List (Option String × String)}
    {d : Diagnostic} (h : desugarForms context forms = .error d) : FindingOf [] d := by
  induction forms with
  | nil => cases h
  | cons form forms ih =>
    obtain ⟨hhmm | hhmm,dow⟩ := form
    · exact ih h
    · rw [desugarForms] at h
      split at h
      · cases h
        exact .error _ _ _
      · cases hf : desugarForms context forms with
        | error d' =>
          rw [hf] at h
          cases h
          exact ih hf
        | ok crons =>
          rw [hf] at h
          cases h

theorem finding_resolveSchedule {lib : Libraries} {name : String} {raw : RawSchedule}
    {d : Diagnostic} (h : resolveSchedule lib name raw = .error d) : FindingOf [] d := by
  simp only [resolveSchedule] at h
  split at h
  · rename_i hf
    cases h
    exact finding_desugarForms hf
  · split at h
    · cases h
      exact .error _ _ _
    · split at h
      · cases h
        exact .error _ _ _
      · cases h
    · cases h
      exact .error _ _ _

theorem finding_exposeDiagnostics (deviceIndex : HashMap String DeviceId) (devices : List DeviceDef)
    (adapter : AdapterDef) : ∀ d ∈ exposeDiagnostics deviceIndex devices adapter,
      FindingOf ["E_EMPTY_EXPOSE"] d := by
  unfold exposeDiagnostics
  dsimp only
  split
  · refine finding_append ?_ fun d hd => ?_
    · split
      · exact finding_singleton (.lint (by decide) _ _)
      · exact finding_nil
    · obtain ⟨_,-,rfl⟩ := List.mem_map.mp hd
      exact .error _ _ _
  · split
    · exact finding_singleton (.lint (by decide) _ _)
    · exact finding_nil
  · exact finding_nil

/-- A warning comes from one of the lints; only those of unused scenes and schedules have their codes. -/
theorem warning_cases {lib : Libraries} {π : HashOrder} {raw : RawConfig} {d : Diagnostic}
    (hd : d ∈ diagnostics lib raw π) (warns : d.isError = false) :
    d.code ∈ ["E_INERT_DEVICE","E_UNUSED_ADAPTER","E_EMPTY_EXPOSE","E_NO_DEVICES"] ∨
      d ∈ unusedScenes lib raw ∨ d ∈ unusedSchedules lib raw ∨
        d ∈ danglingTimers π (notes lib raw) := by
  simp only [diagnostics,List.mem_append,List.mem_flatMap] at hd
  obtain ((((((((((⟨entry,-,hd⟩ | hd) | hd) | hd) | hd) | ⟨a,-,hd⟩) | ⟨device,-,hd⟩) | hd) | hd) |
    hd) | hd) | hd := hd
  · exact absurd ((finding_adapterDiagnostics lib entry d hd).code warns) List.not_mem_nil
  · exact .inl (by simp [List.mem_singleton.mp ((finding_devicePass raw d hd).code warns)])
  · obtain ⟨entry,-,hd⟩ := List.mem_filterMap.mp hd
    split at hd
    · cases hd
    · rename_i hs
      cases hd
      exact absurd ((finding_resolveSchedule hs).code warns) List.not_mem_nil
  · obtain ⟨n,hn,hd⟩ := List.mem_filterMap.mp hd
    cases n with
    | diagnostic d' =>
      cases hd
      exact absurd ⟨d,rfl,warns⟩ (not_warns_of_mem_notes _ hn)
    | _ => cases hd
  · obtain ⟨_,-,rfl⟩ := List.mem_map.mp hd
    exact .inl (by simp [Diagnostic.warning,Diagnostic.place])
  · exact .inl (by simp [List.mem_singleton.mp ((finding_exposeDiagnostics _ _ a d hd).code warns)])
  · exact absurd ((finding_addressDiagnostics _ device d hd).code warns) List.not_mem_nil
  · exact .inr (.inl hd)
  · exact .inr (.inr (.inl hd))
  · exact .inr (.inr (.inr hd))
  · split at hd
    · rw [List.mem_singleton.mp hd]
      exact .inl (by simp [Diagnostic.warning])
    · cases hd
  · unfold timezoneDiagnostics at hd
    split at hd
    · cases hd
    · rw [List.mem_singleton.mp hd] at warns
      cases warns

/-- Everything the compiler finds is an error, a lint, or a timer that dangles. -/
theorem finding_diagnostics {lib : Libraries} {π : HashOrder} {raw : RawConfig} {d : Diagnostic}
    (hd : d ∈ diagnostics lib raw π) : Finding d ∨ d ∈ danglingTimers π (notes lib raw) := by
  cases he : d.isError with
  | true => exact .inl (.inl he)
  | false =>
    rcases warning_cases hd he with hc | hs | hs | hd
    · exact .inl (FindingOf.finding (.inr hc) (by decide))
    · obtain ⟨_,-,rfl⟩ := List.mem_map.mp hs
      exact .inl (FindingOf.finding (.lint (List.mem_singleton_self _) _ _) (by decide))
    · obtain ⟨_,-,rfl⟩ := List.mem_map.mp hs
      exact .inl (FindingOf.finding (.lint (List.mem_singleton_self _) _ _) (by decide))
    · exact .inr hd

/-- The warning that nothing schedules a timer. -/
def danglingTimer (key : String) : Diagnostic :=
  Diagnostic.warning "E_DANGLING_TIMER" ("timer key '" ++ key ++ "' is referenced but never scheduled")

theorem danglingTimer_injective : Function.Injective danglingTimer := by
  intro k k' h
  have hm := congrArg (fun d => d.message.toList) h
  simp only [danglingTimer,Diagnostic.warning,String.toList_append] at hm
  exact String.toList_injective (List.append_cancel_left (List.append_cancel_right hm))

/-- Of a timer that is said to dangle no command was noted to schedule it. -/
theorem not_scheduled_of_dangling {lib : Libraries} {π : HashOrder} {raw : RawConfig}
    {cfg : CompiledConfig} (accepted : resolve lib π raw = .ok cfg) {key : String}
    (dead : danglingTimer key ∈ cfg.warnings) : Note.scheduledKey key ∉ notes lib raw := by
  have hd : danglingTimer key ∈ diagnostics lib raw π := by
    rw [resolve] at accepted
    split_ifs at accepted
    cases accepted
    exact dead
  rcases finding_diagnostics hd with (herror | hlint) | hd
  · cases herror
  · exact absurd hlint (show "E_DANGLING_TIMER" ∉ lintCodes by decide)
  · obtain ⟨k,hk,he⟩ := List.mem_map.mp hd
    have hkey : k = key := danglingTimer_injective he
    rw [← hkey]
    exact of_decide_eq_true (List.mem_filter.mp hk).2

end Resolve
end Domiform
