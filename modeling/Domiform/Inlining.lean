import Domiform.Library.Expansion
import Domiform.Termination

/-! Scenes are inlined. The engine that expands a scene while it dispatches and the one that is handed
the commands of the scene differ in nothing but what the observers hear of the activation. -/
namespace Domiform
open Library Relation

/-- The scene a command activates. -/
def Command.activated : Command → Option SceneId
  | activateScene scene => some scene
  | _ => none

@[simp] theorem Command.activated_eq_some {c : Command} {scene : SceneId} :
    c.activated = some scene ↔ c = .activateScene scene := by
  cases c <;> simp [activated]

/-- What the observers hear of an activation. -/
def Entry.isActivation : Entry → Bool
  | .notice (.commandDispatched (.activateScene _) _) | .notice (.sceneExpanded _ _) => true
  | _ => false

namespace Engine
variable {A N : Type}

/-- The list of plain commands that a list stands for: every scene is replaced by its commands. -/
abbrev Flattens (e : Engine A N) : List Command → List Command → Prop :=
  Expands Command.activated e.scenes.lookup

/-- Scenes without cycles flatten every list, in one way, and leave no activation. -/
theorem ScenesEnd.flattens {e : Engine A N} (h : e.ScenesEnd) (cs : List Command) : ∃ xs,
    e.Flattens cs xs ∧ (∀ c ∈ xs, ∀ scene, c ≠ .activateScene scene) ∧
      ∀ ys, e.Flattens cs ys → ys = xs := by
  have wf : WellFounded fun child parent => ∃ members, e.scenes.lookup parent = some members ∧
      ∃ c ∈ members, c.activated = some child := by
    refine Subrelation.wf (r := Activates e.scenes) ?_ h
    rintro child parent ⟨members,hl,c,hc,ha⟩
    rw [Command.activated_eq_some] at ha
    exact ⟨members,hl,ha ▸ hc⟩
  obtain ⟨xs,hx⟩ := Expands.exists_of_wellFounded wf cs
  refine ⟨xs,hx,fun c hc scene he => ?_,fun ys hy => hy.unique hx⟩
  have hn := hx.plain_items c hc
  rw [Command.activated_eq_some.mpr he] at hn
  cases hn

/-- The engine, with more history before its own. -/
def onto (e : Engine A N) (past : List (Millis × Entry)) : Engine A N :=
  { e with trace := past ++ e.trace }

/-- The same engines but for what was heard of activations. -/
structure Alike (e e' : Engine A N) : Prop where
  same : e' = { e with trace := e'.trace }
  heard : (e'.trace.filter fun x => !x.2.isActivation) = e.trace.filter fun x => !x.2.isActivation

/-- The two computations end, in like engines or in the same panic. -/
abbrev EndAlike (f g : ℕ → Exec (Engine A N)) : Prop := SettleAlike Alike (· ≠ .outOfFuel) f g

section Onto
variable (e : Engine A N) (past : List (Millis × Entry))

@[simp] theorem onto_trace : (e.onto past).trace = past ++ e.trace := rfl

theorem record_onto (x : Entry) : (e.onto past).record x = (e.record x).onto past := by
  simp [onto,record]

theorem notify_onto (n : Notice) : (e.onto past).notify n = (e.notify n).onto past :=
  record_onto e past _

theorem issue_onto (cmd : Command) (origin : Option ℕ) : (e.onto past).issue cmd origin =
    ((e.issue cmd origin).1,(e.issue cmd origin).2.onto past) := by
  cases origin with
  | none => simp [issue,onto,record]
  | some serial => rfl

theorem handleOutcome_onto (outcome : DispatchOutcome) (cmd : Command) (attempt serial depth : ℕ) :
    (e.onto past).handleOutcome outcome cmd attempt serial depth =
      (e.handleOutcome outcome cmd attempt serial depth).onto past := by
  cases outcome with
  | ok evs => rfl
  | transient reason =>
    simp only [handleOutcome,notify_onto]
    by_cases hl : attempt < (e.notify (.dispatchFailed cmd reason true attempt)).retry.maxAttempts
    · have hl' : attempt < ((e.notify (.dispatchFailed cmd reason true attempt)).onto
        past).retry.maxAttempts := hl
      rw [if_pos hl,if_pos hl']
      simp [scheduleRetry,schedule,notify,record,onto]
    · have hl' : ¬attempt < ((e.notify (.dispatchFailed cmd reason true attempt)).onto
        past).retry.maxAttempts := hl
      rw [if_neg hl,if_neg hl']
      simp [giveUp,enqueue,notify,record,onto]
  | permanent reason => simp [handleOutcome,giveUp,enqueue,notify,record,onto]

theorem scheduleCommand_onto (cmd : Command) :
    (e.onto past).scheduleCommand cmd = (e.scheduleCommand cmd).onto past :=
  record_onto (e.schedule cmd) past _

variable [Adapter A]

theorem dispatchDevice_onto (cmd : Command) (attempt : ℕ) (origin : Option ℕ) (depth : ℕ) :
    dispatchDevice cmd attempt origin depth (e.onto past) =
      (dispatchDevice cmd attempt origin depth e).map fun b => b.onto past := by
  simp only [dispatchDevice,issue_onto]
  generalize e.issue cmd origin = x
  cases hb : cmd.targetDevice.bind x.2.deviceToAdapter.lookup with
  | none =>
    have hb' : cmd.targetDevice.bind (x.2.onto past).deviceToAdapter.lookup = none := hb
    simp only [hb',handleOutcome_onto]
    rfl
  | some idx =>
    have hb' : cmd.targetDevice.bind (x.2.onto past).deviceToAdapter.lookup = some idx := hb
    simp only [hb']
    cases ho : x.2.adapters.dispatch idx cmd x.2.now with
    | none =>
      have ho' : (x.2.onto past).adapters.dispatch idx cmd (x.2.onto past).now = none := ho
      simp only [ho']
      rfl
    | some y =>
      have ho' : (x.2.onto past).adapters.dispatch idx cmd (x.2.onto past).now = some y := ho
      have hh : (x.2.onto past).handOver idx cmd y.2 = (x.2.handOver idx cmd y.2).onto past := rfl
      simp only [ho',hh,record_onto,handleOutcome_onto]
      rfl

/-- A command that activates nothing is dispatched the same whatever was heard before, and takes one
unit of fuel. -/
theorem dispatchAt_onto {cmd : Command} (plain : cmd.activated = none) (fuel attempt : ℕ)
    (origin : Option ℕ) (depth : ℕ) : dispatchAt (fuel+1) cmd attempt origin depth (e.onto past) =
      (dispatchAt 1 cmd attempt origin depth e).map fun b => b.onto past := by
  by_cases ht : cmd.targetDevice.isSome
  · have hr : (e.onto past).resolveImplicitStateCommand cmd = e.resolveImplicitStateCommand cmd := rfl
    rw [dispatchAt_device ht,dispatchAt_device ht,hr,notify_onto,dispatchDevice_onto]
  · cases cmd with
    | activateScene scene => cases plain
    | scheduleTimer key after | cancelTimer key =>
      simp only [dispatchAt,resolveImplicitStateCommand,notify_onto,scheduleCommand_onto]
      rfl
    | _ => exact absurd rfl ht

end Onto

namespace Alike
variable {e e' : Engine A N}

theorem refl (e : Engine A N) : Alike e e := ⟨rfl,rfl⟩

/-- What is heard of an activation makes no difference. -/
theorem hear (h : Alike e e') {n : Notice} (activation : (Entry.notice n).isActivation = true) :
    Alike (e.notify n) e' := by
  refine ⟨by rw [h.same]; rfl,?_⟩
  rw [h.heard]
  simp [activation]

theorem of_onto (b : Engine A N) {past past' : List (Millis × Entry)}
    (h : (past'.filter fun x => !x.2.isActivation) = past.filter fun x => !x.2.isActivation) :
    Alike (b.onto past) (b.onto past') := by
  refine ⟨rfl,?_⟩
  rw [onto_trace,onto_trace,List.filter_append,List.filter_append,h]

variable [Adapter A]

/-- A plain command is dispatched alike in like engines. -/
theorem dispatchAt (h : Alike e e') {cmd : Command} (plain : cmd.activated = none) (attempt : ℕ)
    (origin : Option ℕ) (depth : ℕ) :
    EndAlike (fun n => Engine.dispatchAt n cmd attempt origin depth e)
      fun n => Engine.dispatchAt n cmd attempt origin depth e' := by
  let b : Engine A N := { e with trace := [] }
  have he : e = b.onto e.trace := by simp [b,onto]
  have he' : e' = b.onto e'.trace := by
    rw [h.same]
    simp [b,onto]
  have settles (past : List (Millis × Entry)) :
      Settles (fun n => Engine.dispatchAt n cmd attempt origin depth (b.onto past))
        ((Engine.dispatchAt 1 cmd attempt origin depth b).map fun b => b.onto past) :=
    (Settles.const _).succ fun n => b.dispatchAt_onto past plain n attempt origin depth
  have flat (scene : SceneId) : cmd ≠ .activateScene scene := by
    rintro rfl
    cases plain
  obtain ⟨r,hr,-,may⟩ := dispatchAt_ends_of_flat flat attempt origin depth (b.onto e.trace)
  cases hr.unique (settles e.trace)
  refine ⟨_,_,by rw [he]; exact settles _,by rw [he']; exact settles _,?_⟩
  cases hd : Engine.dispatchAt 1 cmd attempt origin depth b with
  | ok b' => exact .ok (of_onto b' h.heard)
  | error err => exact .error (may err (by rw [hd]; rfl))

end Alike

variable [Adapter A]

/-- Dispatching commands one after the other runs the members of a scene for its activation. -/
theorem interprets (scenes : HashMap SceneId (List Command)) (depth : ℕ) :
    Interprets (fun e e' : Engine A N => e.scenes = scenes ∧ Alike e e') (· ≠ .outOfFuel)
      Command.activated scenes.lookup fun n e c => dispatchAt n c 1 none depth e := by
  refine ⟨fun c plain e e' h => ?_,fun c scene hc absent e e' h => ?_,
    fun c scene cmds hc found e e' h => ?_⟩
  · obtain ⟨r,r',hr,hr',ha⟩ := h.2.dispatchAt plain 1 none depth
    refine ⟨r,r',hr,hr',?_⟩
    cases ha with
    | ok related =>
      obtain ⟨n,hn⟩ := hr
      exact .ok ⟨(dispatchAt_frame (hn n le_rfl)).scenes.trans h.1,related⟩
    | error may => exact .error may
  · rw [Command.activated_eq_some.mp hc]
    have hl : (e.notify (.commandDispatched (.activateScene scene) depth)).scenes.lookup scene =
      none := h.1 ▸ absent
    have ha : Alike (e.notify (.commandDispatched (.activateScene scene) depth)) e' := h.2.hear rfl
    refine ⟨e.notify (.commandDispatched (.activateScene scene) depth),⟨h.1,ha⟩,fun n => ?_⟩
    simp only [Engine.dispatchAt,resolveImplicitStateCommand,hl]
  · rw [Command.activated_eq_some.mp hc]
    have hl : (e.notify (.commandDispatched (.activateScene scene) depth)).scenes.lookup scene =
      some cmds := h.1 ▸ found
    have ha : Alike ((e.notify (.commandDispatched (.activateScene scene) depth)).notify
        (.sceneExpanded scene cmds.length)) e' := by
      have hn : Alike (e.notify (.commandDispatched (.activateScene scene) depth)) e' := h.2.hear rfl
      exact hn.hear rfl
    refine ⟨(e.notify (.commandDispatched (.activateScene scene) depth)).notify
      (.sceneExpanded scene cmds.length),⟨h.1,ha⟩,fun n => ?_⟩
    simp only [Engine.dispatchAt,resolveImplicitStateCommand,hl]

/-- A list with scenes is dispatched like the plain list it stands for. -/
theorem Flattens.dispatchAll {e : Engine A N} {cs xs : List Command} (h : e.Flattens cs xs)
    (depth : ℕ) : EndAlike (fun fuel => Engine.dispatchAll fuel cs depth e)
      fun fuel => Engine.dispatchAll fuel xs depth e :=
  ((interprets e.scenes depth).foldlM h ⟨rfl,.refl e⟩).mono fun _ _ h => h.2

/-- Neither the attempt nor the serial matters to an activation. -/
theorem dispatchAt_activateScene (fuel : ℕ) (scene : SceneId) (attempt : ℕ) (origin : Option ℕ)
    (depth : ℕ) (e : Engine A N) : dispatchAt fuel (.activateScene scene) attempt origin depth e =
      dispatchAll fuel [.activateScene scene] depth e := by
  have hone : dispatchAll fuel [.activateScene scene] depth e =
      dispatchAt fuel (.activateScene scene) 1 none depth e := by
    rw [dispatchAll,List.foldlM_cons]
    cases dispatchAt fuel (.activateScene scene) 1 none depth e <;> rfl
  rw [hone]
  cases fuel <;> rfl

end Engine

/-- However a scene is activated, whatever the attempt, by a command, by a rule among its other
commands, from within another scene or by a request, the engine goes on as if it had been handed the
commands that the scene stands for: nothing but what the observers hear of activations differs. -/
theorem scenes_are_inlined {A N : Type} [Adapter A] [NorthboundAdapter N] (e : Engine A N)
    (scene : SceneId) (depth : ℕ) {xs : List Command} (flat : e.Flattens [.activateScene scene] xs) :
    (∀ attempt origin, Engine.EndAlike
      (fun fuel => Engine.dispatchAt fuel (.activateScene scene) attempt origin depth e)
      fun fuel => Engine.dispatchAll fuel xs depth e) ∧
    (∀ (rule : Rule) (ys : List Command), e.Flattens rule.commands ys → Engine.EndAlike
      (fun fuel => Engine.fire fuel rule depth e)
      fun fuel => Engine.fire fuel { rule with commands := ys } depth e) ∧
    ∀ π, depth ≤ e.maxCascadeDepth → Engine.EndAlike
      (fun fuel => Engine.process π fuel (.requestedScene scene) depth e)
      fun fuel => Engine.dispatchAll fuel xs depth (e.received (.requestedScene scene) depth) := by
  refine ⟨fun attempt origin => ?_,fun rule ys h => ?_,fun π le => ?_⟩
  · simp only [Engine.dispatchAt_activateScene]
    exact flat.dispatchAll depth
  · have hr : (e.record (.firing rule.id e.state)).Flattens rule.commands ys := h
    exact hr.dispatchAll depth
  · have hr : (e.received (.requestedScene scene) depth).Flattens [.activateScene scene] xs := flat
    have hp (fuel : ℕ) : Engine.process π fuel (.requestedScene scene) depth e =
        Engine.dispatchAll fuel [.activateScene scene] depth
          (e.received (.requestedScene scene) depth) := by
      rw [Engine.process,if_neg (Nat.not_lt.mpr le),← Engine.dispatchAt_activateScene]
      rfl
    simp only [hp]
    exact hr.dispatchAll depth

/-- The evening turns the lamp over, dims it up through another scene and asks for a scene that does
not exist. -/
def eveningEngine : Engine VirtualDeviceAdapter MockNorthbound :=
  (lampEngine.addScene ⟨0⟩ [.toggleSwitch lamp,.activateScene ⟨1⟩,.activateScene ⟨7⟩]).addScene ⟨1⟩
    [.increaseBrightness lamp 10]

theorem eveningEngine_flattens : eveningEngine.Flattens [.activateScene ⟨0⟩]
    [.toggleSwitch lamp,.increaseBrightness lamp 10] := by
  have night : eveningEngine.Flattens [.increaseBrightness lamp 10] [.increaseBrightness lamp 10] :=
    .plain rfl .nil
  have unknown : eveningEngine.Flattens [.activateScene ⟨7⟩] [] := .missing (k := ⟨7⟩) rfl rfl .nil
  have rest : eveningEngine.Flattens [.activateScene ⟨1⟩,.activateScene ⟨7⟩]
    ([.increaseBrightness lamp 10] ++ []) := .members (k := ⟨1⟩) rfl rfl night unknown
  show eveningEngine.Flattens _ ([.toggleSwitch lamp,.increaseBrightness lamp 10] ++ [])
  exact .members (k := ⟨0⟩) rfl rfl (.plain rfl rest) .nil

/-- When the lamp is on, wait a minute and let the evening come. -/
def duskRule : Rule :=
  ⟨⟨0⟩,"dusk",.changed lamp .switch true,.always,
    [.scheduleTimer ⟨"dusk"⟩ 60000,.activateScene ⟨0⟩],none⟩

/-- The evening comes by a command, by a rule and by a request. -/
theorem evening_is_inlined :
    (Engine.EndAlike (fun fuel => Engine.dispatchAt fuel (.activateScene ⟨0⟩) 2 none 3 eveningEngine)
      fun fuel => Engine.dispatchAll fuel [.toggleSwitch lamp,.increaseBrightness lamp 10] 3
        eveningEngine) ∧
    (Engine.EndAlike (fun fuel => Engine.fire fuel duskRule 3 eveningEngine)
      fun fuel => Engine.fire fuel { duskRule with commands := [.scheduleTimer ⟨"dusk"⟩ 60000,
        .toggleSwitch lamp,.increaseBrightness lamp 10] } 3 eveningEngine) ∧
    Engine.EndAlike
      (fun fuel => Engine.process .identity fuel (.requestedScene ⟨0⟩) 3 eveningEngine)
      fun fuel => Engine.dispatchAll fuel [.toggleSwitch lamp,.increaseBrightness lamp 10] 3
        (eveningEngine.received (.requestedScene ⟨0⟩) 3) := by
  obtain ⟨command,rule,request⟩ := scenes_are_inlined eveningEngine ⟨0⟩ 3 eveningEngine_flattens
  exact ⟨command 2 none,rule duskRule _ (.plain rfl eveningEngine_flattens),
    request .identity (by decide)⟩

end Domiform
