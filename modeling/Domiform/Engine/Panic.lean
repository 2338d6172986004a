import Domiform.Engine.Run

/-! The one panic of the loop: `self.adapters[idx]` out of bounds. Whatever the fuel, processing
fails only by running out of it or at a device bound beyond the adapter table. -/
namespace Domiform
open Library Relation

namespace Engine
variable {A N : Type}

/-- A device is bound to an index beyond the adapter table. -/
def Misbound (e : Engine A N) (err : Halt) : Prop :=
  ∃ device idx, err = .noAdapter idx ∧ e.deviceToAdapter.lookup device = some idx ∧
    e.adapters.size ≤ idx

/-- A result keeps the wiring, or is the lack of fuel, or the panic of a misbound device. -/
structure Safe (e : Engine A N) (x : Exec (Engine A N)) : Prop where
  wiring : ∀ e', x = .ok e' → e.Wiring e'
  misbound : ∀ err, x = .error err → err ≠ .outOfFuel → e.Misbound err

theorem Wiring.refl (e : Engine A N) : e.Wiring e := ⟨rfl,rfl,rfl,rfl,rfl,rfl⟩

theorem wiring_record (e : Engine A N) (x : Entry) : e.Wiring (e.record x) :=
  ⟨rfl,rfl,rfl,rfl,rfl,rfl⟩

theorem wiring_notify (e : Engine A N) (n : Notice) : e.Wiring (e.notify n) := wiring_record e _

theorem wiring_erasePendingFor (e : Engine A N) (rule : RuleId) :
    e.Wiring { e with pendingFor := e.pendingFor.erase rule } := ⟨rfl,rfl,rfl,rfl,rfl,rfl⟩

theorem wiring_eraseRetry (e : Engine A N) (key : TimerKey) :
    e.Wiring { e with retries := e.retries.erase key } := ⟨rfl,rfl,rfl,rfl,rfl,rfl⟩

theorem Misbound.of_wiring {e e' : Engine A N} (h : e.Wiring e') {err : Halt}
    (hm : e'.Misbound err) : e.Misbound err := by
  obtain ⟨device,idx,rfl,hl,hs⟩ := hm
  exact ⟨device,idx,rfl,by rwa [← h.deviceToAdapter],by rwa [← h.size]⟩

namespace Safe
variable {e e' : Engine A N} {x : Exec (Engine A N)}

theorem ok (h : e.Wiring e') : e.Safe (.ok e') :=
  ⟨by rintro _ ⟨⟩; exact h,by rintro _ ⟨⟩⟩

theorem outOfFuel : e.Safe (.error .outOfFuel) :=
  ⟨by rintro _ ⟨⟩,by rintro _ ⟨⟩ h; exact absurd rfl h⟩

theorem of_wiring (h : e.Wiring e') (hx : e'.Safe x) : e.Safe x :=
  ⟨fun b hb => h.trans (hx.wiring b hb),fun err he hn => (hx.misbound err he hn).of_wiring h⟩

theorem bind {f : Engine A N → Exec (Engine A N)} (hx : e.Safe x)
    (hf : ∀ b, e.Wiring b → b.Safe (f b)) : e.Safe (x >>= f) := by
  cases x with
  | error err => exact ⟨by rintro _ ⟨⟩,hx.misbound⟩
  | ok b =>
    have hb := hx.wiring b rfl
    exact (hf b hb).of_wiring hb

theorem foldlM {α : Type} {f : Engine A N → α → Exec (Engine A N)} {xs : List α}
    (step : ∀ a ∈ xs, ∀ b, e.Wiring b → b.Safe (f b a)) : e.Safe (xs.foldlM f e) := by
  induction xs generalizing e with
  | nil => exact .ok (.refl e)
  | cons a xs ih =>
    rw [List.foldlM_cons]
    refine (step a List.mem_cons_self e (.refl e)).bind fun b hb => ih fun a' ha' c hc => ?_
    exact step a' (List.mem_cons_of_mem a ha') c (hb.trans hc)

end Safe

variable [Adapter A]

theorem Dispatched.wiring {depth : ℕ} {e e' : Engine A N} (h : Dispatched depth e e') :
    e.Wiring e' :=
  ⟨h.rules,h.deviceToAdapter,h.scenes,h.retry,h.maxCascadeDepth,h.size⟩

/-- Routing fails only at an index beyond the table. -/
theorem dispatchDevice_safe (cmd : Command) (attempt : ℕ) (origin : Option ℕ) (depth : ℕ)
    (e : Engine A N) : e.Safe (dispatchDevice cmd attempt origin depth e) := by
  refine ⟨fun e' h => (dispatchDevice_dispatched h).wiring,fun err h _ => ?_⟩
  have hw := (Dispatched.of_issue e cmd origin : Dispatched depth e _).wiring
  simp only [dispatchDevice] at h
  split at h
  · rename_i idx hb
    split at h
    · cases h
    · rename_i ha
      cases h
      obtain ⟨device,-,hl⟩ := Option.bind_eq_some_iff.mp hb
      refine Misbound.of_wiring hw ⟨device,idx,rfl,hl,?_⟩
      cases idx with
      | zero => cases ha
      | succ i =>
        simp only [AdapterTable.dispatch] at ha
        split at ha
        · cases ha
        · rename_i hn
          simpa [AdapterTable.size] using List.getElem?_eq_none_iff.mp hn
  · cases h

theorem dispatchAt_safe (fuel : ℕ) (cmd : Command) (attempt : ℕ) (origin : Option ℕ) (depth : ℕ)
    (e : Engine A N) : e.Safe (dispatchAt fuel cmd attempt origin depth e) := by
  induction fuel generalizing cmd attempt origin e with
  | zero => exact .outOfFuel
  | succ fuel ih =>
    by_cases ht : cmd.targetDevice.isSome
    · rw [dispatchAt_device ht]
      exact .of_wiring (wiring_notify e _) (dispatchDevice_safe _ attempt origin depth _)
    · rw [dispatchAt,e.resolveImplicitStateCommand_of_untargeted (by simpa using ht)]
      refine .of_wiring (wiring_notify e (.commandDispatched cmd depth)) ?_
      cases cmd with
      | activateScene scene =>
        dsimp only
        split
        · rename_i cmds _
          exact .of_wiring (wiring_notify _ _) (.foldlM fun c _ b _ => ih c 1 none b)
        · exact .ok (.refl _)
      | scheduleTimer key after | cancelTimer key => exact .ok ⟨rfl,rfl,rfl,rfl,rfl,rfl⟩
      | _ => simp [Command.targetDevice] at ht

theorem fire_safe (fuel : ℕ) (rule : Rule) (depth : ℕ) (e : Engine A N) :
    e.Safe (fire fuel rule depth e) :=
  .of_wiring (wiring_record e _) (.foldlM fun c _ b _ => dispatchAt_safe fuel c 1 none depth b)

/-- A wait that ends is forgotten first; what may fail is firing its rule. -/
theorem fireElapsedFor_eq (π : HashOrder) (key : TimerKey) (e : Engine A N) :
    ∃ b, e.Wiring b ∧ ((∀ fuel, fireElapsedFor π fuel key e = .ok b) ∨
      ∃ rule, ∀ fuel, fireElapsedFor π fuel key e = fire fuel rule 0 b) := by
  simp only [fireElapsedFor]
  split
  · exact ⟨e,.refl e,.inl fun _ => rfl⟩
  · rename_i ruleId _ _
    refine ⟨_,wiring_erasePendingFor e ruleId,?_⟩
    split
    · exact .inl fun _ => rfl
    · rename_i rule _
      split_ifs
      · exact .inr ⟨rule,fun _ => rfl⟩
      · exact .inl fun _ => rfl

theorem fireElapsedFor_safe (π : HashOrder) (fuel : ℕ) (key : TimerKey) (e : Engine A N) :
    e.Safe (fireElapsedFor π fuel key e) := by
  obtain ⟨b,hw,h | ⟨rule,h⟩⟩ := fireElapsedFor_eq π key e
  · rw [h fuel]
    exact .ok hw
  · rw [h fuel]
    exact .of_wiring hw (fire_safe fuel rule 0 b)

variable [NorthboundAdapter N]

theorem Internal.wiring {fires : Rule → Prop} {depth : ℕ} {e e' : Engine A N}
    (h : Internal fires depth e e') : e.Wiring e' :=
  ⟨h.rules,h.deviceToAdapter,h.scenes,h.retry,h.maxCascadeDepth,h.size⟩

omit [Adapter A] in
theorem wiring_foldState (e : Engine A N) (ev : Event) : e.Wiring (e.foldState ev) := by
  cases ev <;> exact ⟨rfl,rfl,rfl,rfl,rfl,rfl⟩

theorem wiring_refan (e : Engine A N) (device : DeviceId) (kind : CapabilityKind) :
    e.Wiring (e.refan device kind) :=
  (Internal.of_refan e device kind : Internal (fun _ => True) 0 _ _).wiring

/-- Arming comes first; what may fail afterwards is dispatching the rules that do not wait. -/
theorem runFired_eq (fired : List Rule) (depth : ℕ) (e : Engine A N) :
    ∃ b, e.Wiring b ∧ ∀ fuel, runFired fuel fired depth e =
      (fired.filter fun r => r.forDuration.isNone).foldlM (fun e r => fire fuel r depth e) b := by
  have armed : Internal (fun _ => True) depth e (armAll fired e) := .of_armAll fired e
  exact ⟨_,armed.wiring,fun fuel => runFired_eq_foldlM fuel fired depth e⟩

/-- Folding, cancelling and considering come first; what may fail is running the fired rules. -/
theorem react_eq_runFired (π : HashOrder) (ev : Event) (depth : ℕ) (e : Engine A N) :
    ∃ b fired, e.Wiring b ∧ ∀ fuel, react π fuel ev depth e = runFired fuel fired depth b := by
  refine ⟨_,_,?_,fun fuel => react_eq π fuel ev depth e⟩
  have hk (e : Engine A N) (prior) : e.Wiring (e.considerRules ev prior).1 :=
    (Internal.of_considerRules e ev _ : Internal (fun _ => True) 0 _ _).wiring
  refine ((wiring_foldState e ev).trans ?_).trans (hk _ _)
  split_ifs
  · exact (Internal.of_cancelRevertedForTimers π _ : Internal (fun _ => True) 0 _ _).wiring
  · exact .refl _

theorem runFired_safe (fuel : ℕ) (fired : List Rule) (depth : ℕ) (e : Engine A N) :
    e.Safe (runFired fuel fired depth e) := by
  obtain ⟨b,hw,h⟩ := runFired_eq fired depth e
  rw [h fuel]
  exact .of_wiring hw (.foldlM fun r _ b _ => fire_safe fuel r depth b)

theorem react_safe (π : HashOrder) (fuel : ℕ) (ev : Event) (depth : ℕ) (e : Engine A N) :
    e.Safe (react π fuel ev depth e) := by
  obtain ⟨b,fired,hw,h⟩ := react_eq_runFired π ev depth e
  rw [h fuel]
  exact .of_wiring hw (runFired_safe fuel fired depth b)

theorem requestChange_safe (fuel : ℕ) (device : DeviceId) (desired : Desired) (depth : ℕ)
    (e : Engine A N) : e.Safe (requestChange fuel device desired depth e) := by
  have hr (b : Engine A N) : b.Safe (.ok (b.refan device desired.kind)) :=
    .ok (wiring_refan b device desired.kind)
  simp only [requestChange]
  split
  · exact (dispatchAt_safe fuel _ 1 none depth e).bind fun b _ => hr b
  · exact hr e

/-- Processing one event fails only for want of fuel or at a misbound device. -/
theorem process_safe (π : HashOrder) (fuel : ℕ) (ev : Event) (depth : ℕ) (e : Engine A N) :
    e.Safe (process π fuel ev depth e) := by
  simp only [process]
  split_ifs
  · exact .ok (wiring_notify e _)
  · refine .of_wiring (wiring_notify e (.eventReceived ev depth)) ?_
    split
    · split
      · exact .of_wiring (wiring_eraseRetry _ _) (dispatchAt_safe fuel _ _ _ 0 _)
      · split_ifs
        · exact fireElapsedFor_safe π fuel _ _
        · exact react_safe π fuel _ depth _
    · exact requestChange_safe fuel _ _ depth _
    · exact dispatchAt_safe fuel _ 1 none depth _
    · exact react_safe π fuel _ depth _

theorem drain_safe (π : HashOrder) (fuel : ℕ) (e : Engine A N) : e.Safe (drain π fuel e) := by
  induction fuel generalizing e with
  | zero => exact .outOfFuel
  | succ fuel ih =>
    rw [drain]
    cases e.queue with
    | nil => exact .ok (.refl e)
    | cons x rest =>
      refine .of_wiring (⟨rfl,rfl,rfl,rfl,rfl,rfl⟩ : e.Wiring { e with queue := rest }) ?_
      exact (process_safe π fuel x.1 x.2 _).bind fun b _ => ih b

end Engine
end Domiform
