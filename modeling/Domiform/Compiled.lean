import Domiform.Bindings
import Domiform.Compile.WellFormed

/-! What the compiler hands over. Nothing of the file is lost on the way, since whatever does not
lower is reported as an error; and everything that a body refers to is there. -/
namespace Domiform
open Library Checked Resolve

/-- A condition has the shape of its node: every list keeps all its members, in order. -/
inductive Lowerer.Mirrors (lw : Lowerer) (context : String) : Value → Condition → Prop
  | all {k payload : Value} {items : List Value} {cs : List Condition}
      (verb : k.asStr = some "all") (list : payload.asSequence = some items)
      (members : List.Forall₂ (Mirrors lw context) items cs) :
      Mirrors lw context (.mapping [(k,payload)]) (.and cs)
  | any {k payload : Value} {items : List Value} {cs : List Condition}
      (verb : k.asStr = some "any") (list : payload.asSequence = some items)
      (members : List.Forall₂ (Mirrors lw context) items cs) :
      Mirrors lw context (.mapping [(k,payload)]) (.or cs)
  | not {k payload : Value} {c : Condition} (verb : k.asStr = some "not")
      (inner : Mirrors lw context payload c) : Mirrors lw context (.mapping [(k,payload)]) (.not c)
  | leaf {k payload : Value} {verb : String} {c : Condition} (verb_eq : k.asStr = some verb)
      (plain : verb ≠ "all" ∧ verb ≠ "any" ∧ verb ≠ "not")
      (lowered : (lw.leafCondition verb payload context).value = some c) :
      Mirrors lw context (.mapping [(k,payload)]) c

namespace Lowerer
variable {lw : Lowerer} {context : String}

mutual
theorem condition_mirrors {v : Value} {c : Condition}
    (h : (lw.condition context v).value = some c) : lw.Mirrors context v c := by
  match v,h with
  | .mapping [(k,payload)],h =>
    rw [condition] at h
    split at h
    · cases h
    · rename_i verb hk
      split_ifs at h with hall hany hnot
      · obtain ⟨cs,hcs,hc⟩ := value_bind_eq_some.mp h
        cases hc
        obtain ⟨items,hitems,hm⟩ := conditionList_mirrors hcs
        exact .all (hall ▸ hk) hitems hm
      · obtain ⟨cs,hcs,hc⟩ := value_bind_eq_some.mp h
        cases hc
        obtain ⟨items,hitems,hm⟩ := conditionList_mirrors hcs
        exact .any (hany ▸ hk) hitems hm
      · obtain ⟨c,hc,he⟩ := value_bind_eq_some.mp h
        cases he
        exact .not (hnot ▸ hk) (condition_mirrors hc)
      · exact .leaf hk ⟨hall,hany,hnot⟩ h

theorem conditionList_mirrors {node : String} {v : Value} {cs : List Condition}
    (h : (lw.conditionList context node v).value = some cs) :
    ∃ items, v.asSequence = some items ∧ List.Forall₂ (lw.Mirrors context) items cs := by
  match v,h with
  | .tagged _ v,h => exact conditionList_mirrors (v := v) h
  | .sequence items,h => exact ⟨items,rfl,conditionItems_mirrors h⟩

theorem conditionItems_mirrors {items : List Value} {cs : List Condition}
    (h : (lw.conditionItems context items).value = some cs) :
    List.Forall₂ (lw.Mirrors context) items cs := by
  match items,h with
  | [],h =>
    cases h
    exact .nil
  | v :: vs,h =>
    obtain ⟨c,hc,h⟩ := Option.bind_eq_some_iff.mp h
    obtain ⟨cs',hcs,rfl⟩ := Option.map_eq_some_iff.mp h
    exact .cons (condition_mirrors hc) (conditionItems_mirrors hcs)
end

/-- No node lowers to `always`. -/
theorem leafCondition_ne_always (verb : String) (payload : Value) :
    Ensures (fun c => c ≠ .always) (lw.leafCondition verb payload context) := by
  unfold leafCondition
  refine .ite (fun _ => .bind fun _ _ => .pure nofun) fun _ => ?_
  refine .ite (fun _ => .bind fun _ _ => .bind fun _ _ => .bind fun _ _ => .pure nofun) fun _ => ?_
  refine .ite (fun _ => .bind fun _ _ => .bind fun _ _ => .bind fun _ _ => .pure nofun) fun _ => ?_
  refine .ite (fun _ => .bind fun _ _ => .bind fun _ _ => .bind fun _ _ => .bind fun _ _ =>
    .bind fun _ _ => .pure nofun) fun _ => ?_
  refine .ite (fun _ => .bind fun _ _ => .bind fun _ _ => .bind fun _ _ => .bind fun _ _ =>
    .pure nofun) fun _ => ?_
  refine .ite (fun _ => .bind fun _ _ => .bind fun _ _ => .pure nofun) fun _ => ?_
  exact .ite (fun _ => .bind fun _ _ => .bind fun _ _ => .pure nofun) fun _ => .fail

theorem Mirrors.ne_always {v : Value} {c : Condition} (h : lw.Mirrors context v c) :
    c ≠ .always := by
  cases h with
  | all | any | not => simp
  | leaf _ _ lowered => exact leafCondition_ne_always _ _ _ lowered

end Lowerer

section Counterparts
variable (lib : Libraries) (raw : RawConfig)

/-- A list of commands, one for one. -/
def Lowerer.Commands (lw : Lowerer) (context : String) (vs : List Value) (cs : List Command) :
    Prop :=
  List.Forall₂ (fun v c => (lw.command context v).value = some c) vs cs

/-- The rule that an entry of the file stands for. -/
structure Lowerer.RuleOf (lw : Lowerer) (name : String) (i : ℕ) (raw : RawRule) (r : Rule) :
    Prop where
  numbered : r.id = ⟨i⟩
  named : r.name = name
  trigger : (lw.trigger (ruleContext name) raw.trigger).value = some r.trigger
  always : r.condition = .always ↔ raw.condition = none
  condition : ∀ v, raw.condition = some v → lw.Mirrors (ruleContext name) v r.condition
  commands : lw.Commands (ruleContext name) raw.commands r.commands
  duration : r.forDuration = raw.forDuration.bind durationOf
  lasting : r.forDuration.isSome ↔ raw.forDuration.isSome

structure SceneOf (lw : Lowerer) (name : String) (i : ℕ) (body : List Value) (s : CompiledScene) :
    Prop where
  numbered : s.id = ⟨i⟩
  named : s.name = name
  commands : lw.Commands (sceneContext name) body s.commands

structure ScheduleOf (lib : Libraries) (name : String) (i : ℕ) (raw : RawSchedule)
    (s : CompiledSchedule) : Prop where
  numbered : s.id = ⟨i⟩
  named : s.name = name
  cron : resolveSchedule lib name raw = .ok s.cron

structure DeviceOf (raw : RawConfig) (name : String) (i : ℕ) (x : RawDevice) (d : DeviceDef) :
    Prop where
  numbered : d.id = ⟨i⟩
  named : d.name = name
  adapter : raw.adapters.names[d.adapter]? = some x.adapter
  address : d.address = x.address
  endpoint : d.endpoint = x.endpoint
  capabilities : List.Forall₂ (fun s k => parseCapability s = some k) x.capabilities d.capabilities
  events : d.events.map (fun e => (e.name,e.raw)) = x.events.entries

/-- Everything in the file has its one counterpart, in the order of the names, with the position
for an id. -/
structure Lossless (lib : Libraries) (raw : RawConfig) (cfg : CompiledConfig) : Prop where
  rules : List.Forall₂ (fun x r => (lowerer lib raw).RuleOf x.1.1 x.2 x.1.2 r)
    raw.rules.entries.zipIdx cfg.rules
  scenes : List.Forall₂ (fun x s => SceneOf (lowerer lib raw) x.1.1 x.2 x.1.2 s)
    raw.scenes.entries.zipIdx cfg.scenes
  schedules : List.Forall₂ (fun x s => ScheduleOf lib x.1.1 x.2 x.1.2 s)
    raw.schedules.entries.zipIdx cfg.schedules
  devices : List.Forall₂ (fun x d => DeviceOf raw x.1.1 x.2 x.1.2 d)
    raw.devices.entries.zipIdx cfg.devices

end Counterparts

/-- A table of partial results that leaves nothing out. -/
theorem forall₂_filterMap {α β : Type} {f : α → Option β} {P : α → β → Prop} {xs : List α}
    (h : ∀ x ∈ xs, ∃ y, f x = some y ∧ P x y) : List.Forall₂ P xs (xs.filterMap f) := by
  induction xs with
  | nil => exact .nil
  | cons x xs ih =>
    obtain ⟨y,hy,hp⟩ := h x List.mem_cons_self
    rw [List.filterMap_cons_some hy]
    exact .cons hp (ih fun x hx => h x (List.mem_cons_of_mem _ hx))

variable {lib : Libraries} {π : HashOrder} {raw : RawConfig} {cfg : CompiledConfig}

/-- Commands that lower without an error, lower one for one. -/
theorem Lowerer.commands_of_quiet {lw : Lowerer} (indexed : lw.Indexed) {context : String}
    {vs : List Value} (quiet : Quiet Note.Rejects (lw.commands context vs)) :
    ∃ cs, (lw.commands context vs).value = some cs ∧ lw.Commands context vs cs ∧
      ∀ c ∈ cs, c.WellFormed lw.scope := by
  have hall (v : Value) (hv : v ∈ vs) : ∃ c, (lw.command context v).value = some c ∧
      c.WellFormed lw.scope := command_finds indexed v (quiet.of_collect hv)
  refine ⟨_,rfl,forall₂_filterMap fun v hv => ?_,fun c hc => ?_⟩
  · obtain ⟨c,hc,-⟩ := hall v hv
    exact ⟨c,hc,hc⟩
  · obtain ⟨v,hv,hc⟩ := List.mem_filterMap.mp hc
    obtain ⟨c',hc',hw⟩ := hall v hv
    cases hc.symm.trans hc'
    exact hw

/-- The condition of an entry; without `if` it is always met. -/
def Lowerer.conditionOf (lw : Lowerer) (context : String) : Option Value → Lower Condition
  | some v => lw.condition context v
  | none => pure .always

theorem Lowerer.conditionOf_finds {lw : Lowerer} (indexed : lw.Indexed) (context : String)
    (raw : Option Value) : Finds (fun c => c.WellFormed lw.scope ∧ (c = .always ↔ raw = none) ∧
      ∀ v, raw = some v → lw.Mirrors context v c) (lw.conditionOf context raw) := by
  cases raw with
  | none => exact .pure ⟨.always,by simp,nofun⟩
  | some v =>
    intro quiet
    obtain ⟨c,hc,hw⟩ := condition_finds context indexed v quiet
    have hm := condition_mirrors hc
    refine ⟨c,hc,hw,⟨fun he => absurd he hm.ne_always,nofun⟩,?_⟩
    rintro _ ⟨⟩
    exact hm

/-- The duration of an entry, once its trigger is known. -/
def Lowerer.durationOf? (t : Trigger) (context : String) : Option String → Lower Millis
  | some d => forDuration d t context
  | none => .silent

theorem Lowerer.durationOf?_spec {t : Trigger} {context : String} {raw : Option String}
    (quiet : Quiet Note.Rejects (durationOf? t context raw)) :
    (durationOf? t context raw).value = raw.bind durationOf ∧
      ((durationOf? t context raw).value.isSome ↔ raw.isSome) ∧
      ((durationOf? t context raw).value.isSome → t.watched.isSome) := by
  cases raw with
  | none => exact ⟨rfl,by simp [durationOf?,silent],nofun⟩
  | some d =>
    obtain ⟨ms,hms,-⟩ := forDuration_finds quiet
    have hv : (forDuration d t context).value = some ms := hms
    rw [durationOf?,hv]
    rw [forDuration] at hv
    split_ifs at hv with hw
    · cases hv
    · simp only [parseDuration] at hv
      split at hv
      · rename_i ms' hd
        cases hv
        refine ⟨hd.symm,by simp,fun _ => ?_⟩
        simpa [Option.isSome_iff_ne_none] using hw
      · cases hv

theorem lowerRule_eq (lw : Lowerer) (name : String) (i : ℕ) (raw : RawRule) :
    lowerRule lw name i raw =
      let t := lw.trigger (ruleContext name) raw.trigger
      let c := lw.conditionOf (ruleContext name) raw.condition
      let cs := lw.commands (ruleContext name) raw.commands
      match t.value,c.value,cs.value with
      | some t',some c',some cs' =>
        let duration := Lowerer.durationOf? t' (ruleContext name) raw.forDuration
        ⟨some (some ⟨⟨i⟩,name,t',c',cs',duration.value⟩),
          t.notes ++ c.notes ++ cs.notes ++ duration.notes⟩
      | _,_,_ => ⟨some none,t.notes ++ c.notes ++ cs.notes⟩ := by
  obtain ⟨trigger,condition,duration,commands⟩ := raw
  cases condition <;> cases duration <;> rfl

/-- What is reported of a part is reported of the rule. -/
theorem parts_of_lowerRule {lw : Lowerer} {name : String} {i : ℕ} {raw : RawRule}
    (quiet : Quiet Note.Rejects (lowerRule lw name i raw)) :
    Quiet Note.Rejects (lw.trigger (ruleContext name) raw.trigger) ∧
      Quiet Note.Rejects (lw.conditionOf (ruleContext name) raw.condition) ∧
      Quiet Note.Rejects (lw.commands (ruleContext name) raw.commands) := by
  refine ⟨fun n hn => quiet n (notes_lowerRule (.inl hn)),fun n hn => ?_,
    fun n hn => quiet n (notes_lowerRule (.inr (.inr hn)))⟩
  cases hc : raw.condition with
  | none =>
    rw [hc] at hn
    cases hn
  | some v =>
    rw [hc] at hn
    exact quiet n (notes_lowerRule (.inr (.inl ⟨v,hc,hn⟩)))

/-- A rule of which nothing was reported is all there, and well formed. -/
theorem lowerRule_finds {lw : Lowerer} (indexed : lw.Indexed) (name : String) (i : ℕ)
    (raw : RawRule) : Lowerer.Finds
      (fun o => ∃ r, o = some r ∧ lw.RuleOf name i raw r ∧ r.WellFormed lw.scope)
      (lowerRule lw name i raw) := by
  intro quiet
  obtain ⟨htq,hcq,hcsq⟩ := parts_of_lowerRule quiet
  obtain ⟨t,ht,htw⟩ := Lowerer.trigger_finds indexed raw.trigger htq
  obtain ⟨c,hc,hcw,halways,hmirrors⟩ :=
    Lowerer.conditionOf_finds indexed (ruleContext name) raw.condition hcq
  obtain ⟨cs,hcs,hlist,hcsw⟩ := Lowerer.commands_of_quiet indexed hcsq
  rw [lowerRule_eq] at quiet ⊢
  dsimp only at quiet ⊢
  rw [ht,hc,hcs] at quiet ⊢
  dsimp only at quiet ⊢
  obtain ⟨hd,hsome,hedge⟩ := Lowerer.durationOf?_spec
    fun n hn => quiet n (List.mem_append_right _ hn)
  exact ⟨_,rfl,_,rfl,⟨rfl,rfl,ht,halways,hmirrors,hlist,hd,hsome⟩,htw,hcw,hcsw,hedge⟩

/-- The notes of an accepted config reject nothing, body by body. -/
theorem scene_quiet (h : resolve lib π raw = .ok cfg) {entry : String × List Value}
    (hm : entry ∈ raw.scenes.entries) : Quiet Note.Rejects (lowerScene lib raw entry) := by
  intro n hn hr
  rw [Note.Rejects,notes_of_accepted h n] at hr
  · cases hr
  · exact List.mem_append_left _ (List.mem_flatMap.mpr ⟨entry,hm,hn⟩)

theorem rule_quiet (h : resolve lib π raw = .ok cfg) {x : (String × RawRule) × ℕ}
    (hm : x ∈ raw.rules.entries.zipIdx) :
    Quiet Note.Rejects (lowerRule (lowerer lib raw) x.1.1 x.2 x.1.2) := by
  intro n hn hr
  rw [Note.Rejects,notes_of_accepted h n] at hr
  · cases hr
  · exact List.mem_append_right _ (List.mem_flatMap.mpr ⟨x,hm,hn⟩)

/-- Every entry of an accepted config has its rule. -/
theorem rules_of_accepted (h : resolve lib π raw = .ok cfg) :
    List.Forall₂ (fun x r => (lowerer lib raw).RuleOf x.1.1 x.2 x.1.2 r ∧ r.WellFormed cfg.scope)
      raw.rules.entries.zipIdx cfg.rules := by
  rw [(resolve_eq_ok h).2.2.2.2.1,rules,lowerRules,collect,Option.getD_some,
    List.filterMap_filterMap]
  refine forall₂_filterMap fun x hx => ?_
  obtain ⟨o,ho,r,rfl,hr,hw⟩ :=
    lowerRule_finds (lowerer_indexed lib raw) x.1.1 x.2 x.1.2 (rule_quiet h hx)
  rw [scope_of_accepted h] at hw
  exact ⟨r,by rw [ho]; rfl,hr,hw⟩

theorem scenes_of_accepted (h : resolve lib π raw = .ok cfg) :
    List.Forall₂ (fun x s => SceneOf (lowerer lib raw) x.1.1 x.2 x.1.2 s ∧
      ∀ c ∈ s.commands, c.WellFormed cfg.scope) raw.scenes.entries.zipIdx cfg.scenes := by
  rw [(resolve_eq_ok h).2.2.2.1,scenes,List.forall₂_map_right_iff,List.forall₂_same]
  intro x hx
  have quiet : Quiet Note.Rejects
      ((lowerer lib raw).commands (sceneContext x.1.1) x.1.2) :=
    scene_quiet h (List.fst_mem_of_mem_zipIdx hx)
  obtain ⟨cs,hcs,hlist,hw⟩ := Lowerer.commands_of_quiet (lowerer_indexed lib raw) quiet
  rw [scope_of_accepted h] at hw
  have hv : (lowerScene lib raw x.1).value.getD [] = cs := by
    rw [lowerScene,hcs]
    rfl
  exact ⟨⟨rfl,rfl,hv ▸ hlist⟩,fun c hc => hw c (hv ▸ hc)⟩

theorem schedules_kept (h : resolve lib π raw = .ok cfg) :
    List.Forall₂ (fun x s => ScheduleOf lib x.1.1 x.2 x.1.2 s)
      raw.schedules.entries.zipIdx cfg.schedules := by
  obtain ⟨hs,hok⟩ := schedules_of_accepted h
  rw [hs,schedules]
  refine forall₂_filterMap fun x hx => ?_
  obtain ⟨cron,hr⟩ := hok x.1 (List.fst_mem_of_mem_zipIdx hx)
  exact ⟨⟨⟨x.2⟩,x.1.1,cron⟩,by rw [hr],rfl,rfl,hr⟩

/-- Devices of which nothing was reported are all there. -/
theorem resolveDevices_kept (raw : RawConfig) (entries : List (String × RawDevice))
    (quiet : ∀ d ∈ (resolveDevices (adapterIndex raw) entries).diags, d.isError = false) :
    List.Forall₂ (fun x d => DeviceOf raw x.1.1 x.2 x.1.2 d) entries.zipIdx
      (resolveDevices (adapterIndex raw) entries).devices := by
  induction entries using List.reverseRecOn with
  | nil => exact .nil
  | append_singleton entries entry ih =>
    rw [resolveDevices_concat] at quiet ⊢
    generalize resolveDevices (adapterIndex raw) entries = pass at ih quiet ⊢
    obtain ⟨name,x⟩ := entry
    rw [resolveDevice] at quiet ⊢
    dsimp only at quiet ⊢
    cases hl : (adapterIndex raw).lookup x.adapter with
    | none =>
      rw [hl] at quiet
      have := quiet _ (List.mem_append_right _ (by
        rw [deviceDiagnostics,hl]
        exact List.mem_append_left _ (List.mem_append_left _ (List.mem_singleton_self _))))
      cases this
    | some adapter =>
      rw [hl] at quiet
      dsimp only at quiet ⊢
      have hprev := ih fun d hd => quiet d (List.mem_append_left _ hd)
      have hlen := hprev.length_eq
      rw [List.length_zipIdx] at hlen
      rw [List.zipIdx_append]
      refine List.rel_append hprev (.cons ⟨?_,rfl,?_,rfl,rfl,?_,?_⟩ .nil)
      · simp [hlen]
      · exact (lookup_adapterIndex raw _ _).mp hl
      · refine forall₂_filterMap fun cap hcap => ?_
        cases hk : parseCapability cap with
        | some kind => exact ⟨kind,rfl,rfl⟩
        | none =>
          have hm : cap ∈ x.capabilities.filter fun cap => (parseCapability cap).isNone :=
            List.mem_filter.mpr ⟨hcap,by rw [hk]; rfl⟩
          have hbad := quiet _ (List.mem_append_right _ (List.mem_append_left _
            (List.mem_append_right _ (List.mem_map_of_mem hm))))
          cases hbad
      · rw [List.map_map]
        exact List.zipIdx_map_fst _ _

/-- A device is only left out with an error. -/
theorem devices_kept (h : resolve lib π raw = .ok cfg) :
    List.Forall₂ (fun x d => DeviceOf raw x.1.1 x.2 x.1.2 d) raw.devices.entries.zipIdx
      cfg.devices := by
  obtain ⟨hd,-,hds,-⟩ := resolve_eq_ok h
  rw [hds]
  refine resolveDevices_kept raw raw.devices.entries fun d hm => hd d ?_
  simp only [diagnostics,List.mem_append]
  exact .inl (.inl (.inl (.inl (.inl (.inl (.inl (.inl (.inl (.inl (.inr hm))))))))))

/-- Whatever fails to lower is reported, and so is whatever is left out of a rule. -/
structure Candid (lw : Lowerer) : Prop where
  trigger : ∀ context v, Honest Note.Rejects (lw.trigger context v)
  condition : ∀ context v, Honest Note.Rejects (lw.condition context v)
  command : ∀ context v, Honest Note.Rejects (lw.command context v)
  rule : ∀ name i raw, (¬∃ r, (lowerRule lw name i raw).value = some (some r) ∧
    lw.RuleOf name i raw r) → ∃ n ∈ (lowerRule lw name i raw).notes, n.Rejects

theorem Lowerer.Indexed.candid {lw : Lowerer} (indexed : lw.Indexed) : Candid lw where
  trigger _ v := (Lowerer.trigger_finds indexed v).honest
  condition context v := (Lowerer.condition_finds context indexed v).honest
  command _ v := (Lowerer.command_finds indexed v).honest
  rule name i raw hno := by
    by_contra hq
    obtain ⟨_,ho,r,rfl,hr,-⟩ := lowerRule_finds indexed name i raw
      fun n hn hr => hq ⟨n,hn,hr⟩
    exact hno ⟨r,ho,hr⟩

/-- Compilation is lossless, since lowering never fails in silence. -/
theorem accepted_lossless (accepted : resolve lib π raw = .ok cfg) :
    Lossless lib raw cfg ∧ Candid (lowerer lib raw) :=
  ⟨⟨(rules_of_accepted accepted).imp fun _ _ h => h.1,
    (scenes_of_accepted accepted).imp fun _ _ h => h.1,schedules_kept accepted,
    devices_kept accepted⟩,(lowerer_indexed lib raw).candid⟩

/-- Every member of the second of two matched lists has its match. -/
theorem forall_mem_right {α β : Type} {P : α → β → Prop} {Q : β → Prop} {xs : List α} {ys : List β}
    (h : List.Forall₂ P xs ys) (hq : ∀ x y, P x y → Q y) : ∀ y ∈ ys, Q y := by
  induction h with
  | nil => simp
  | cons hp _ ih => exact List.forall_mem_cons.mpr ⟨hq _ _ hp,ih⟩

/-- Accepted configs are well formed: every reference resolves, every capability is declared and of
the right shape, and only edges last. -/
theorem accepted_wellFormed (accepted : resolve lib π raw = .ok cfg) :
    (∀ r ∈ cfg.rules, r.WellFormed cfg.scope) ∧
      ∀ s ∈ cfg.scenes, ∀ c ∈ s.commands, c.WellFormed cfg.scope :=
  ⟨forall_mem_right (rules_of_accepted accepted) fun _ _ h => h.2,
    forall_mem_right (scenes_of_accepted accepted) fun _ _ h => h.2⟩

/-- A lamp that goes off at night once it has been on for ten minutes, unless the sun is up. -/
def nightConfig : RawConfig where
  system := .default
  adapters := .single "bus" ⟨"virtual",.mapping []⟩
  devices := .single "lamp" ⟨"bus",none,none,["switch"],.empty,none,none,none⟩
  scenes := .single "dark" [.mapping [(.string "turn_off",.string "lamp")]]
  schedules := .single "late" ⟨none,some "23:30",none,none⟩
  rules := .single "night" {
    trigger := .mapping [(.string "changed",.mapping [(.string "device",.string "lamp"),
      (.string "capability",.string "switch"),(.string "to",.bool true)])]
    condition := some (.mapping [(.string "all",.sequence [
      .mapping [(.string "not",.mapping [(.string "sun_up",.bool true)])],
      .mapping [(.string "time_after",.string "22:00")]])])
    forDuration := some "10m"
    commands := [.mapping [(.string "activate_scene",.string "dark")]] }

theorem night_config_lossless : ∃ cfg, resolve plainLibraries .identity nightConfig = .ok cfg ∧
    Lossless plainLibraries nightConfig cfg := by
  obtain ⟨cfg,h⟩ : ∃ cfg, resolve plainLibraries .identity nightConfig = .ok cfg := ⟨_,rfl⟩
  exact ⟨cfg,h,(accepted_lossless h).1⟩

theorem night_config_wellFormed : ∃ cfg, resolve plainLibraries .identity nightConfig = .ok cfg ∧
    ∀ r ∈ cfg.rules, r.WellFormed cfg.scope := by
  obtain ⟨cfg,h⟩ : ∃ cfg, resolve plainLibraries .identity nightConfig = .ok cfg := ⟨_,rfl⟩
  exact ⟨cfg,h,(accepted_wellFormed h).1⟩

end Domiform
