import Domiform.Absolute
import Domiform.Inlining
import Domiform.Library.Matched
import Domiform.Scenes
import Domiform.Unknown

/-! Scenes in the file are macros. Writing out the lines of a scene wherever a rule activates it, all
the way down, and compiling that rule gives the rule that was compiled before, as far as any run can
tell. -/
namespace Domiform
open Library Checked Relation Resolve

namespace Lowerer

/-- What is lowered, and whether without an error, does not depend on the context, which only places
what is reported. -/
def Unworded {α : Type} (f : String → Lower α) : Prop :=
  ∀ c c', (f c).value = (f c').value ∧ (Quiet Note.Rejects (f c) → Quiet Note.Rejects (f c'))

namespace Unworded
variable {α β : Type} {lw : Lowerer}

theorem const (m : Lower α) : Unworded fun _ => m := fun _ _ => ⟨rfl,id⟩

theorem error (code message : String) :
    Unworded fun c => (Lowerer.error code message c : Lower α) :=
  fun _ _ => ⟨rfl,fun h => absurd rfl (h _ (List.mem_singleton_self _))⟩

theorem bind {f : String → Lower α} {g : α → String → Lower β} (hf : Unworded f)
    (hg : ∀ a, Unworded (g a)) : Unworded fun c => f c >>= fun a => g a c := by
  intro c c'
  obtain ⟨hv,hq⟩ := hf c c'
  constructor
  · refine Option.ext fun b => ?_
    rw [value_bind_eq_some,value_bind_eq_some,hv]
    simp only [(hg _ c c').1]
  · intro quiet
    obtain ⟨first,rest⟩ := quiet.bind
    refine (hq first).of_bind_value fun a ha => ?_
    rw [← hv] at ha
    exact (hg a c c').2 (rest a ha)

theorem ite {p : Prop} [Decidable p] {f g : String → Lower α} (hf : Unworded f) (hg : Unworded g) :
    Unworded fun c => if p then f c else g c := by
  intro c c'
  split_ifs
  · exact hf c c'
  · exact hg c c'

theorem asName (v : Value) (node : String) : Unworded (asName v node) := by
  unfold Lowerer.asName
  cases v.asStr with
  | none => exact error _ _
  | some s => exact const _

theorem payload (decode : Value → Option α) (v : Value) (node : String) :
    Unworded (lw.payload decode v node) := by
  unfold Lowerer.payload
  cases v.applyMerge with
  | error e => exact error _ _
  | ok v =>
    cases hd : decode v with
    | none =>
      simp only [hd]
      exact error _ _
    | some t =>
      simp only [hd]
      exact const _

theorem resolveDevice (name : String) : Unworded (lw.resolveDevice name) := by
  unfold Lowerer.resolveDevice
  cases lw.deviceIndex.lookup name with
  | none => exact error _ _
  | some id => exact const _

theorem requireCap (id : DeviceId) (name : String) (cap : CapabilityKind) (usage : String) :
    Unworded (lw.requireCap id name cap usage) := by
  unfold Lowerer.requireCap
  refine ite (const _) (ite (const _) fun c c' => ⟨rfl,fun h => ?_⟩)
  exact absurd rfl (h _ (List.mem_singleton_self _))

theorem parseDuration (s : String) : Unworded (parseDuration s) := by
  unfold Lowerer.parseDuration
  cases durationOf s with
  | none => exact error _ _
  | some ms => exact const _

theorem parseTransition (s : Option String) : Unworded (parseTransition s) := by
  cases s with
  | none => exact const _
  | some s => exact (parseDuration s).bind fun _ => const _

theorem parseColor (v : Value) : Unworded (parseColor v) := by
  intro c c'
  simp only [Lowerer.parseColor]
  split
  · split
    · exact const _ c c'
    · exact error _ _ c c'
  · split
    · split
      · split_ifs
        · exact const _ c c'
        · exact error _ _ c c'
      · exact error _ _ c c'
    · exact error _ _ c c'

theorem parseColorTemperature (raw : RawSetColorTemperature) :
    Unworded (parseColorTemperature raw) := by
  intro c c'
  simp only [Lowerer.parseColorTemperature]
  split
  · exact error _ _ c c'
  · exact error _ _ c c'
  · split_ifs
    · exact const _ c c'
    · exact error _ _ c c'
  · split_ifs
    · exact const _ c c'
    · exact error _ _ c c'

theorem commandOf (verb : String) (v : Value) : Unworded (lw.commandOf verb v) := by
  unfold Lowerer.commandOf
  refine .ite ((asName _ _).bind fun _ => (resolveDevice _).bind fun _ =>
    (requireCap _ _ _ _).bind fun _ => const _) ?_
  refine .ite ((asName _ _).bind fun _ => (resolveDevice _).bind fun _ =>
    (requireCap _ _ _ _).bind fun _ => const _) ?_
  refine .ite ((payload _ _ _).bind fun _ => (resolveDevice _).bind fun _ =>
    (requireCap _ _ _ _).bind fun _ => (parseTransition _).bind fun _ => const _) ?_
  refine .ite ((payload _ _ _).bind fun _ => (resolveDevice _).bind fun _ =>
    (requireCap _ _ _ _).bind fun _ => const _) ?_
  refine .ite ((payload _ _ _).bind fun _ => (resolveDevice _).bind fun _ =>
    (requireCap _ _ _ _).bind fun _ => const _) ?_
  refine .ite ((payload _ _ _).bind fun _ => (resolveDevice _).bind fun _ =>
    (requireCap _ _ _ _).bind fun _ => (parseColor _).bind fun _ =>
      (parseTransition _).bind fun _ => const _) ?_
  refine .ite ((payload _ _ _).bind fun _ => (resolveDevice _).bind fun _ =>
    (requireCap _ _ _ _).bind fun _ => (parseColorTemperature _).bind fun _ =>
      (parseTransition _).bind fun _ => const _) ?_
  refine .ite ((asName _ _).bind fun name => ?_) ?_
  · cases lw.sceneIndex.lookup name with
    | none => exact error _ _
    | some scene => exact const _
  refine .ite ((payload _ _ _).bind fun _ => (const _).bind fun _ => (parseDuration _).bind
    fun _ => const _) ?_
  refine .ite ((asName _ _).bind fun _ => const _) ?_
  exact .ite ((payload _ _ _).bind fun _ => (resolveDevice _).bind fun _ =>
    (requireCap _ _ _ _).bind fun _ => const _) (error _ _)

theorem command (v : Value) : Unworded fun c => lw.command c v := by
  refine bind (fun c c' => ?_) fun x => commandOf x.1 x.2
  simp only [singleEntry,badNode]
  split
  · split
    · exact const _ c c'
    · exact error _ _ c c'
  · exact error _ _ c c'

end Unworded
end Lowerer

/-- The lines of a scene of the file. -/
def RawConfig.sceneBody (raw : RawConfig) (name : String) : Option (List Value) :=
  (raw.scenes.entries.find? fun x => x.1 == name).map Prod.snd

theorem RawConfig.sceneBody_of_mem {raw : RawConfig} {x : String × List Value}
    (hx : x ∈ raw.scenes.entries) : raw.sceneBody x.1 = some x.2 := by
  have hf : raw.scenes.entries.find? (fun y => y.1 == x.1) = some x := by
    cases hf : raw.scenes.entries.find? (fun y => y.1 == x.1) with
    | none => simpa using List.find?_eq_none.mp hf x hx
    | some y =>
      have hy : y.1 = x.1 := by simpa using List.find?_some hf
      rw [List.inj_on_of_nodup_map raw.scenes.names_nodup (List.mem_of_find?_eq_some hf) hx hy]
  rw [sceneBody,hf]
  rfl

section Accepted
variable {lib : Libraries} {π : HashOrder} {raw : RawConfig} {cfg : CompiledConfig}

/-- A line compiles to a command, wherever it is written. -/
def Lowerer.Lowers (lw : Lowerer) (v : Value) (c : Command) : Prop :=
  ∀ context, Compiles (lw.command context v) c

/-- Lines of which nothing was reported compile one by one. -/
theorem Lowerer.Commands.lowers {lw : Lowerer} {context : String} {vs : List Value}
    {cs : List Command} (h : lw.Commands context vs cs)
    (quiet : Quiet Note.Rejects (lw.commands context vs)) : List.Forall₂ lw.Lowers vs cs := by
  have lines := (List.forall₂_and_left vs cs).mpr ⟨fun v hv => quiet.of_collect hv,h⟩
  refine lines.imp ?_
  rintro v c ⟨line,hc⟩ context'
  obtain ⟨same,still⟩ := Unworded.command v context context'
  exact ⟨same.symm.trans hc,still line⟩

/-- Lines that compile one by one are a list without an error. -/
theorem Lowerer.Lowers.commands {lw : Lowerer} {vs : List Value} {cs : List Command}
    (h : List.Forall₂ lw.Lowers vs cs) (context : String) : Compiles (lw.commands context vs) cs := by
  constructor
  · change some (vs.filterMap fun v => (lw.command context v).value) = some cs
    rw [filterMap_eq_of_forall₂ (g := some) h fun v c hc => (hc context).1,List.filterMap_some]
  · refine .collect fun v hv => ?_
    obtain ⟨c,-,hc⟩ := exists_of_forall₂ h v hv
    exact (hc context).2

/-- A line that activates a scene stands for the activation of a known one. -/
theorem Lowerer.Lowers.activates {lw : Lowerer} {v : Value} {c : Command} {name : String}
    (h : lw.Lowers v c) (hv : v.activatedScene = some name) :
    ∃ scene, lw.sceneIndex.lookup name = some scene ∧ c = .activateScene scene := by
  cases hl : lw.sceneIndex.lookup name with
  | some scene =>
    have hc : (lw.command "" v).value = some (.activateScene scene) :=
      command_activateScene_iff.mpr ⟨name,hv,hl⟩
    exact ⟨scene,rfl,Option.some.inj ((h "").1.symm.trans hc)⟩
  | none =>
    rw [Value.activatedScene.eq_def] at hv
    split at hv
    · rename_i k payload
      split_ifs at hv with hk
      have hc := (h "").1
      simp [Lowerer.command,Lowerer.singleEntry,hk,Lowerer.commandOf,Lowerer.asName,hv,hl,
        Checked.value_bind_eq_some,Lowerer.error,Checked.fail] at hc
    · cases hv

/-- The names of the file and the ids of the compiler file the same scenes. -/
theorem scenes_translate (accepted : resolve lib π raw = .ok cfg) {name : String} {scene : SceneId}
    (known : (lowerer lib raw).sceneIndex.lookup name = some scene) :
    ∃ body cmds, raw.sceneBody name = some body ∧ cfg.sceneTable.lookup scene = some cmds ∧
      List.Forall₂ (lowerer lib raw).Lowers body cmds := by
  have hn := (lookup_sceneIndex raw name scene).mp known
  rw [NameMap.names,List.getElem?_map,Option.map_eq_some_iff] at hn
  obtain ⟨⟨_,body⟩,hx,rfl⟩ := hn
  have hm := List.mem_of_getElem? hx
  have quiet : Checked.Quiet Note.Rejects ((lowerer lib raw).commands
      (sceneContext _) body) := scene_quiet accepted hm
  obtain ⟨cs,hcs,hlist,-⟩ := Lowerer.commands_of_quiet (lowerer_indexed lib raw) quiet
  cases hcs
  exact ⟨body,_,RawConfig.sceneBody_of_mem hm,
    (lookup_sceneTable accepted scene _).mpr ⟨_,body,hx,rfl⟩,hlist.lowers quiet⟩

/-- Flattening the compiled commands is lowering the inlined lines. -/
theorem flattens_of_inlined (accepted : resolve lib π raw = .ok cfg) {vs ws : List Value}
    {cs : List Command} (lowered : List.Forall₂ (lowerer lib raw).Lowers vs cs)
    (inlined : Expands Value.activatedScene raw.sceneBody vs ws) :
    ∃ xs, Expands Command.activated cfg.sceneTable.lookup cs xs ∧
      List.Forall₂ (lowerer lib raw).Lowers ws xs := by
  refine inlined.translate (fun v c h hv => ?_) (fun v c name h hv => ?_) lowered
  · cases ha : c.activated with
    | none => rfl
    | some scene =>
      rw [Command.activated_eq_some] at ha
      subst ha
      obtain ⟨name,hn,-⟩ := command_activateScene_iff.mp (h "").1
      cases hv.symm.trans hn
  · obtain ⟨scene,hs,rfl⟩ := h.activates hv
    obtain ⟨body,cmds,hb,hc,hl⟩ := scenes_translate accepted hs
    exact ⟨scene,body,cmds,rfl,hb,hc,hl⟩

/-- Compiling a rule with other lines that compile changes nothing but its commands. -/
theorem lowerRule_with {lw : Lowerer} {name : String} {i : ℕ} {raw : RawRule} {r : Rule}
    (h : Lowerer.Compiles (lowerRule lw name i raw) (some r)) {ws : List Value} {xs : List Command}
    (hl : List.Forall₂ lw.Lowers ws xs) :
    Lowerer.Compiles (lowerRule lw name i { raw with commands := ws })
      (some { r with commands := xs }) := by
  obtain ⟨hws,quiet⟩ := Lowerer.Lowers.commands hl (ruleContext name)
  obtain ⟨hv,hq⟩ := h
  obtain ⟨htq,hcq,-⟩ := parts_of_lowerRule hq
  rw [lowerRule_eq] at hv hq
  rw [Lowerer.Compiles,lowerRule_eq]
  dsimp only at hv hq ⊢
  rw [hws]
  cases ht : (lw.trigger (ruleContext name) raw.trigger).value with
  | none =>
    rw [ht] at hv
    cases hv
  | some t =>
    cases hc : (lw.conditionOf (ruleContext name) raw.condition).value with
    | none =>
      rw [ht,hc] at hv
      cases hv
    | some cond =>
      cases hcs : (lw.commands (ruleContext name) raw.commands).value with
      | none =>
        rw [ht,hc,hcs] at hv
        cases hv
      | some cs =>
        rw [ht,hc,hcs] at hv hq
        cases hv
        refine ⟨rfl,fun n hn => ?_⟩
        rcases List.mem_append.mp hn with hn | hn
        · rcases List.mem_append.mp hn with hn | hn
          · exact (List.mem_append.mp hn).elim (htq n) (hcq n)
          · exact quiet n hn
        · exact hq n (List.mem_append_right _ hn)

variable {A N : Type} [Adapter A] [NorthboundAdapter N] {b : Builders A N} {e₀ : Engine A N}
  {host : Host N} {p : Phase} {c : Config A N}

/-- Writing the lines of the scenes into a rule of the file, wherever it activates them, all the way
down, leaves lines that each compile; the rule so rewritten compiles, without an error, to a rule with
their commands, which runs like the one that was compiled, in every state that a run reaches. -/
theorem inlining_keeps_rules (accepted : resolve lib π raw = .ok cfg)
    (built : buildEngineFull b cfg = some e₀) (run : Run π host ⟨e₀,p⟩ c)
    {x : (String × RawRule) × ℕ} (hx : x ∈ raw.rules.entries.zipIdx) {ws : List Value}
    (inlined : Expands Value.activatedScene raw.sceneBody x.1.2.commands ws) :
    (∀ w ∈ ws, w.activatedScene = none) ∧ ∃ r ∈ c.engine.rules, ∃ xs : List Command,
      Lowerer.Compiles (lowerRule (lowerer lib raw) x.1.1 x.2 x.1.2) (some r) ∧
      List.Forall₂ (lowerer lib raw).Lowers ws xs ∧
      Lowerer.Compiles (lowerRule (lowerer lib raw) x.1.1 x.2 { x.1.2 with commands := ws })
        (some { r with commands := xs }) ∧
      ∀ depth, Engine.EndAlike (fun fuel => Engine.fire fuel r depth c.engine)
        fun fuel => Engine.fire fuel { r with commands := xs } depth c.engine := by
  have hb := built_of_accepted accepted built
  have hw := Run.wiring run
  have quiet := rule_quiet accepted hx
  obtain ⟨o,ho,r,rfl,hr,-⟩ := lowerRule_finds (lowerer_indexed lib raw) x.1.1 x.2 x.1.2 quiet
  obtain ⟨xs,hxs,hl⟩ := flattens_of_inlined accepted
    (hr.commands.lowers (parts_of_lowerRule quiet).2.2) inlined
  have hmem : r ∈ c.engine.rules := by
    rw [hw.rules,hb.rules,(resolve_eq_ok accepted).2.2.2.2.1,rules,lowerRules,Checked.collect,
      Option.getD_some,List.filterMap_filterMap]
    exact List.mem_filterMap.mpr ⟨x,hx,by rw [ho]; rfl⟩
  refine ⟨inlined.plain_items,r,hmem,xs,⟨ho,quiet⟩,hl,lowerRule_with ⟨ho,quiet⟩ hl,fun depth => ?_⟩
  have flat : (c.engine.record (.firing r.id c.engine.state)).Flattens r.commands xs := by
    have hs : c.engine.scenes = cfg.sceneTable := hw.scenes.trans hb.scenes
    change Expands Command.activated c.engine.scenes.lookup r.commands xs
    rw [hs]
    exact hxs
  exact flat.dispatchAll depth

end Accepted

/-- The night rule activates the dark scene; it might as well turn off the lamp itself. -/
theorem night_rule_inlines : ∃ cfg e₀ r xs, resolve plainLibraries .identity nightConfig = .ok cfg ∧
    buildEngineFull plainBuilders cfg = some e₀ ∧ r ∈ e₀.rules ∧
    List.Forall₂ (lowerer plainLibraries nightConfig).Lowers
      [.mapping [(.string "turn_off",.string "lamp")]] xs ∧
    Lowerer.Compiles (lowerRule (lowerer plainLibraries nightConfig) "night" 0
      { (nightConfig.rules.entries.head (by decide)).2 with
        commands := [.mapping [(.string "turn_off",.string "lamp")]] })
      (some { r with commands := xs }) ∧
    Engine.EndAlike (fun fuel => Engine.fire fuel r 0 e₀)
      fun fuel => Engine.fire fuel { r with commands := xs } 0 e₀ := by
  obtain ⟨cfg,e₀,h,hb⟩ : ∃ cfg e₀, resolve plainLibraries .identity nightConfig = .ok cfg ∧
    buildEngineFull plainBuilders cfg = some e₀ := ⟨_,_,rfl,rfl⟩
  have inlined : Expands Value.activatedScene nightConfig.sceneBody
      [.mapping [(.string "activate_scene",.string "dark")]]
      ([.mapping [(.string "turn_off",.string "lamp")]] ++ []) :=
    .members (k := "dark") rfl rfl (.plain rfl .nil) .nil
  have start : Run .identity .any ⟨e₀,.wired⟩ ⟨e₀,.wired⟩ := .refl
  obtain ⟨-,r,hr,xs,-,hl,hx,he⟩ := inlining_keeps_rules h hb start
    (x := (("night",_),0)) (List.mem_singleton_self _) inlined
  exact ⟨cfg,e₀,r,xs,h,hb,hr,hl,hx,he 0⟩

end Domiform
