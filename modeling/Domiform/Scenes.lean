import Domiform.Bindings
import Domiform.Library.Acyclic
import Domiform.Termination

/-! Scene graphs. Scenes may activate scenes, and nothing on the way from the config file to the
expansion looks for cycles; a cycle in the file is a scene that never stops expanding. -/
namespace Domiform
open Library Relation

/-- The scene a command line activates. -/
def Value.activatedScene : Value → Option String
  | .mapping [(k,payload)] => if k.asStr = some "activate_scene" then payload.asStr else none
  | _ => none

/-- A line of the scene `parent` activates the configured scene `child`. -/
def RawConfig.Activates (raw : RawConfig) (child parent : String) : Prop :=
  child ∈ raw.scenes.names ∧
    ∃ body, (parent,body) ∈ raw.scenes.entries ∧ ∃ v ∈ body, v.activatedScene = some child

/-- A line lowers to an activation exactly when it names a known scene. -/
theorem command_activateScene_iff {lw : Lowerer} {context : String} {v : Value} {scene : SceneId} :
    (lw.command context v).value = some (.activateScene scene) ↔
      ∃ name, v.activatedScene = some name ∧ lw.sceneIndex.lookup name = some scene := by
  constructor
  · intro h
    obtain ⟨k,verb,payload,rfl,hk,hl⟩ := Lowerer.command_lowered h
    cases hl with
    | device _ target => cases target
    | scene name _ hv hn hs =>
      refine ⟨name,?_,hs⟩
      rw [Value.activatedScene,if_pos (hv ▸ hk)]
      exact hn
  · rintro ⟨name,hv,hs⟩
    rw [Value.activatedScene.eq_def] at hv
    split at hv
    · rename_i k payload
      split_ifs at hv with hk
      simp [Lowerer.command,Lowerer.singleEntry,hk,Lowerer.commandOf,Lowerer.asName,hv,hs,
        Checked.value_bind_eq_some,Checked.note]
    · cases hv

section Graph
variable {lib : Libraries} {π : HashOrder} {raw : RawConfig} {cfg : CompiledConfig}

/-- The scene table files every scene under its id. -/
theorem lookup_sceneTable (accepted : resolve lib π raw = .ok cfg) (scene : SceneId)
    (cmds : List Command) : cfg.sceneTable.lookup scene = some cmds ↔
      ∃ name body, raw.scenes.entries[scene.val]? = some (name,body) ∧ cmds =
        body.filterMap fun v =>
          ((Resolve.lowerer lib raw).command (Resolve.sceneContext name) v).value := by
  obtain ⟨-,-,-,hs,-⟩ := resolve_eq_ok accepted
  have hn : ((cfg.scenes.map fun s => (s.id,s.commands)).map Prod.fst).Nodup := by
    rw [List.map_map,hs]
    exact scenes_nodup lib raw
  rw [CompiledConfig.sceneTable,HashMap.lookup_foldl_insert hn]
  simp only [AList.lookup_empty,reduceCtorEq,and_false,or_false,List.mem_map,Prod.mk.injEq,hs,
    mem_scenes]
  constructor
  · rintro ⟨⟨id,name,commands⟩,⟨body,he,hc⟩,rfl,rfl⟩
    exact ⟨name,body,he,hc⟩
  · rintro ⟨name,body,he,hc⟩
    exact ⟨⟨scene,name,cmds⟩,⟨body,he,hc⟩,rfl,rfl⟩

/-- Compiled scenes activate each other as the file says. -/
theorem activates_iff (accepted : resolve lib π raw = .ok cfg) (child parent : SceneId) :
    Activates cfg.sceneTable child parent ↔ ∃ c p, raw.scenes.names[child.val]? = some c ∧
      raw.scenes.names[parent.val]? = some p ∧ raw.Activates c p := by
  constructor
  · rintro ⟨cmds,hl,hm⟩
    obtain ⟨p,body,he,rfl⟩ := (lookup_sceneTable accepted parent cmds).mp hl
    obtain ⟨v,hv,hc⟩ := List.mem_filterMap.mp hm
    obtain ⟨c,ha,hi⟩ := command_activateScene_iff.mp hc
    have hci := (lookup_sceneIndex raw c child).mp hi
    refine ⟨c,p,hci,?_,List.mem_of_getElem? hci,body,List.mem_of_getElem? he,v,hv,ha⟩
    rw [NameMap.names,List.getElem?_map,he]
    rfl
  · rintro ⟨c,p,hc,hp,-,body,hb,v,hv,ha⟩
    -- the entry named `p` is the one at the position of the parent
    obtain ⟨i,hi⟩ := List.mem_iff_getElem?.mp hb
    have hpi : raw.scenes.names[i]? = some p := by
      rw [NameMap.names,List.getElem?_map,hi]
      rfl
    obtain rfl := raw.scenes.position_unique hpi hp
    refine ⟨_,(lookup_sceneTable accepted parent _).mpr ⟨p,body,hi,rfl⟩,
      List.mem_filterMap.mpr ⟨v,hv,command_activateScene_iff.mpr ⟨c,ha,?_⟩⟩⟩
    exact (lookup_sceneIndex raw c child).mpr hc

/-- A cycle among compiled scenes is a cycle in the file, and the other way round. -/
theorem acyclic_iff (accepted : resolve lib π raw = .ok cfg) :
    (∀ scene, ¬TransGen (Activates cfg.sceneTable) scene scene) ↔
      ∀ name, ¬TransGen raw.Activates name name := by
  constructor
  · intro h name hn
    -- walk the names by their positions
    have hw : ∀ a b, TransGen raw.Activates a b → ∀ j, raw.scenes.names[j]? = some b →
        ∃ i, raw.scenes.names[i]? = some a ∧
          TransGen (Activates cfg.sceneTable) ⟨i⟩ ⟨j⟩ := by
      intro a b hab
      induction hab with
      | single hab =>
        intro j hj
        obtain ⟨i,hi⟩ := List.mem_iff_getElem?.mp hab.1
        exact ⟨i,hi,.single ((activates_iff accepted ⟨i⟩ ⟨j⟩).mpr ⟨_,_,hi,hj,hab⟩)⟩
      | tail _ hbc ih =>
        intro j hj
        obtain ⟨k,hk⟩ := List.mem_iff_getElem?.mp hbc.1
        obtain ⟨i,hi,ht⟩ := ih k hk
        exact ⟨i,hi,ht.tail ((activates_iff accepted ⟨k⟩ ⟨j⟩).mpr ⟨_,_,hk,hj,hbc⟩)⟩
    have hmem : name ∈ raw.scenes.names := by
      obtain ⟨b,hb,-⟩ := TransGen.head'_iff.mp hn
      exact hb.1
    obtain ⟨j,hj⟩ := List.mem_iff_getElem?.mp hmem
    obtain ⟨i,hi,ht⟩ := hw name name hn j hj
    obtain rfl := raw.scenes.position_unique hi hj
    exact h ⟨i⟩ ht
  · intro h scene hs
    have hw : ∀ a b, TransGen (Activates cfg.sceneTable) a b → ∃ x y,
        raw.scenes.names[a.val]? = some x ∧ raw.scenes.names[b.val]? = some y ∧
          TransGen raw.Activates x y := by
      intro a b hab
      induction hab with
      | single hab =>
        obtain ⟨x,y,hx,hy,hr⟩ := (activates_iff accepted _ _).mp hab
        exact ⟨x,y,hx,hy,.single hr⟩
      | tail _ hbc ih =>
        obtain ⟨x,y,hx,hy,hr⟩ := ih
        obtain ⟨y',z,hy',hz,hr'⟩ := (activates_iff accepted _ _).mp hbc
        obtain rfl : y = y' := Option.some.inj (hy.symm.trans hy')
        exact ⟨x,z,hx,hz,hr.tail hr'⟩
    obtain ⟨x,y,hx,hy,hr⟩ := hw scene scene hs
    obtain rfl : x = y := Option.some.inj (hx.symm.trans hy)
    exact h x hr

/-- Only configured scenes are activated, so finitely many. -/
theorem activates_wellFounded_iff (accepted : resolve lib π raw = .ok cfg) :
    WellFounded (Activates cfg.sceneTable) ↔ ∀ name, ¬TransGen raw.Activates name name := by
  have mem : ∀ child parent, Activates cfg.sceneTable child parent →
      child ∈ (Finset.range raw.scenes.names.length).image SceneId.mk := by
    intro child parent h
    obtain ⟨c,-,hc,-⟩ := (activates_iff accepted child parent).mp h
    refine Finset.mem_image.mpr ⟨child.val,?_,rfl⟩
    exact Finset.mem_range.mpr (List.getElem?_eq_some_iff.mp hc).1
  exact (wellFounded_iff_acyclic mem).trans (acyclic_iff accepted)

end Graph

/-- Every scene of an accepted config expands to finitely many commands, in every state of the
engine and wherever the activation comes from, exactly when no scene of the file leads back to
itself. -/
theorem scenes_expand {lib : Libraries} {π : HashOrder} {raw : RawConfig} {cfg : CompiledConfig}
    (accepted : resolve lib π raw = .ok cfg) :
    (WellFounded (Activates cfg.sceneTable) ∧
      ∀ (A N : Type) [Adapter A] (e : Engine A N), e.scenes = cfg.sceneTable →
        ∀ scene attempt origin depth, ∃ r, r ≠ .error .outOfFuel ∧
          Settles (fun fuel => e.dispatchAt fuel (.activateScene scene) attempt origin depth) r) ↔
      ∀ name, ¬TransGen raw.Activates name name := by
  rw [← activates_wellFounded_iff accepted]
  refine ⟨fun h => h.1,fun wf => ⟨wf,fun A N _ e he scene attempt origin depth => ?_⟩⟩
  have hend : e.ScenesEnd := by rwa [Engine.ScenesEnd,he]
  obtain ⟨r,hr,-,herr⟩ := Engine.dispatchAt_ends hend (.activateScene scene) attempt origin depth
  exact ⟨r,fun h => herr _ h rfl,hr⟩

/-- A config that holds nothing but scenes. -/
def sceneConfig (scenes : NameMap (List Value)) : RawConfig where
  system := .default
  adapters := .empty
  devices := .empty
  scenes := scenes
  schedules := .empty
  rules := .empty

/-- A line that activates the scene of this name. -/
def activateLine (name : String) : Value := .mapping [(.string "activate_scene",.string name)]

/-- The evening activates a scene that activates none. -/
def nestedScenes : NameMap (List Value) :=
  ⟨[("dim",[.mapping [(.string "cancel_timer",.string "away")]]),("evening",[activateLine "dim"])],
    by decide,by decide⟩

theorem nested_scenes_expand : ∃ cfg,
    resolve plainLibraries .identity (sceneConfig nestedScenes) = .ok cfg ∧
      WellFounded (Activates cfg.sceneTable) := by
  obtain ⟨cfg,h⟩ : ∃ cfg, resolve plainLibraries .identity (sceneConfig nestedScenes) = .ok cfg :=
    ⟨_,rfl⟩
  have hr (child parent) (ha : (sceneConfig nestedScenes).Activates child parent) :
      child = "dim" ∧ parent = "evening" := by
    obtain ⟨-,body,hb,v,hv,hn⟩ := ha
    have he : (parent,body) ∈ nestedScenes.entries := hb
    simp only [nestedScenes,List.mem_cons,Prod.mk.injEq,List.not_mem_nil,or_false] at he
    rcases he with ⟨rfl,rfl⟩ | ⟨rfl,rfl⟩
    · rw [List.mem_singleton.mp hv] at hn
      cases hn
    · rw [List.mem_singleton.mp hv] at hn
      exact ⟨(Option.some.inj hn).symm,rfl⟩
  refine ⟨cfg,h,((scenes_expand h).mpr fun name hn => ?_).1⟩
  obtain ⟨c,hc,-⟩ := TransGen.head'_iff.mp hn
  obtain ⟨d,-,hd⟩ := TransGen.tail'_iff.mp hn
  have heq := (hr name c hc).1.symm.trans (hr d name hd).2
  exact absurd heq (by decide)

/-- A scene that activates itself. -/
def loopScene : NameMap (List Value) := .single "evening" [activateLine "evening"]

/-- Expanding a scene that holds itself uses up any fuel. -/
theorem dispatchAt_loop {A N : Type} [Adapter A] {scene : SceneId} (fuel : ℕ) (attempt : ℕ)
    (origin : Option ℕ) (depth : ℕ) {e : Engine A N}
    (h : e.scenes.lookup scene = some [.activateScene scene]) :
    e.dispatchAt fuel (.activateScene scene) attempt origin depth = .error .outOfFuel := by
  induction fuel generalizing attempt origin e with
  | zero => rfl
  | succ fuel ih =>
    let e₁ := (e.notify (.commandDispatched (.activateScene scene) depth)).notify
      (.sceneExpanded scene 1)
    have he : e.dispatchAt (fuel+1) (.activateScene scene) attempt origin depth =
        [Command.activateScene scene].foldlM
          (fun e c => Engine.dispatchAt fuel c 1 none depth e) e₁ := by
      have hl : (e.notify (.commandDispatched (.activateScene scene) depth)).scenes.lookup scene =
        some [.activateScene scene] := h
      simp only [Engine.dispatchAt,Engine.resolveImplicitStateCommand,hl]
      rfl
    have hi : Engine.dispatchAt fuel (.activateScene scene) 1 none depth e₁ = .error .outOfFuel :=
      ih 1 none h
    rw [he,List.foldlM_cons,hi]
    rfl

/-- The file is accepted, and asking for its scene never returns. -/
theorem looping_scene_is_accepted : ∃ cfg e,
    resolve plainLibraries .identity (sceneConfig loopScene) = .ok cfg ∧
      buildEngineFull plainBuilders cfg = some e ∧ ¬WellFounded (Activates cfg.sceneTable) ∧
      (∀ fuel attempt origin depth,
        e.dispatchAt fuel (.activateScene ⟨0⟩) attempt origin depth = .error .outOfFuel) ∧
      ∀ fuel, e.inject .identity fuel (.requestedScene ⟨0⟩) = .error .outOfFuel := by
  obtain ⟨cfg,e,h,he,hs,hl,hq⟩ : ∃ cfg e,
      resolve plainLibraries .identity (sceneConfig loopScene) = .ok cfg ∧
        buildEngineFull plainBuilders cfg = some e ∧
        e.scenes.lookup ⟨0⟩ = some [.activateScene ⟨0⟩] ∧
        cfg.sceneTable.lookup ⟨0⟩ = some [.activateScene ⟨0⟩] ∧ e.queue = [] :=
    ⟨_,_,rfl,rfl,rfl,rfl,rfl⟩
  refine ⟨cfg,e,h,he,fun wf => ?_,fun fuel attempt origin depth => dispatchAt_loop _ _ _ _ hs,
    fun fuel => ?_⟩
  · exact wf.irrefl.irrefl ⟨0⟩ ⟨_,hl,List.mem_singleton_self _⟩
  · cases fuel with
    | zero => rfl
    | succ fuel =>
      have hp : Engine.process .identity fuel (.requestedScene ⟨0⟩) 0
          { e.enqueue (.requestedScene ⟨0⟩) 0 with queue := [] } = .error .outOfFuel := by
        rw [Engine.process,if_neg (Nat.not_lt_zero _)]
        exact dispatchAt_loop fuel 1 none 0 hs
      have hd : (e.enqueue (.requestedScene ⟨0⟩) 0).queue = [(.requestedScene ⟨0⟩,0)] := by
        rw [Engine.enqueue,hq]
        rfl
      rw [Engine.inject,Engine.drain,hd]
      dsimp only
      rw [hp]
      rfl

end Domiform
