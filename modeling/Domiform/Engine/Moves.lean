import Domiform.Engine.Run
import Domiform.Library.Decimal

/-! Processing in small moves. Whatever an event does, it does by moves of a few kinds; an invariant
that every kind of move keeps is kept by every event. The first such invariant numbers the timers
the engine keeps for itself. -/
namespace Domiform
open Library Relation

namespace Engine

theorem retryKey_injective : Function.Injective retryKey :=
  fun _ _ h => numbered_injective retryKeyPrefix (congrArg TimerKey.name h)

theorem forKey_injective : Function.Injective forKey :=
  fun _ _ h => numbered_injective forKeyPrefix (congrArg TimerKey.name h)

theorem forKey_startsWith (n : ℕ) : (forKey n).startsWith forKeyPrefix = true := by
  simp [forKey,forKeyPrefix,TimerKey.startsWith]

theorem retryKey_startsWith (n : ℕ) : (retryKey n).startsWith retryKeyPrefix = true := by
  simp [retryKey,retryKeyPrefix,TimerKey.startsWith]

/-- The two namespaces part at their third character. -/
theorem retryKey_startsWith_for (n : ℕ) : (retryKey n).startsWith forKeyPrefix = false := by
  have hp : forKeyPrefix.toList = ['_','_','f','o','r',':'] := by decide
  have hk : (retryKey n).name.toList =
      '_' :: '_' :: 'r' :: 'e' :: 't' :: 'r' :: 'y' :: ':' :: Nat.toDigits 10 n := by
    simp [retryKey,retryKeyPrefix]
  rw [TimerKey.startsWith,hp,hk]
  rfl

theorem forKey_ne_retryKey (n m : ℕ) : forKey n ≠ retryKey m := by
  intro h
  have hn := forKey_startsWith n
  rw [h,retryKey_startsWith_for] at hn
  cases hn

variable {A N : Type} [Adapter A] [NorthboundAdapter N]

/-- One move. Timer commands of rules and scenes meet `user`, and the retries taken up again are
pending under keys that meet `again`. -/
inductive Move (user : Command → Prop) (again : TimerKey → Prop) (e : Engine A N) :
    Engine A N → Prop
  | notice (n : Notice) : Move user again e (e.notify n)
  | firing (rule : RuleId) : Move user again e (e.record (.firing rule e.state))
  | fold (ev : Event) : Move user again e (e.foldState ev)
  | refan (device : DeviceId) (kind : CapabilityKind) : Move user again e (e.refan device kind)
  | cancel (rule : RuleId) : Move user again e (e.cancelForTimer rule)
  | arm (rule : RuleId) (after : Millis) : Move user again e (e.armForTimer rule after)
  | elapse (rule : RuleId) : Move user again e { e with pendingFor := e.pendingFor.erase rule }
  | timer (cmd : Command) (timer : cmd.isTimer = true) (h : user cmd) :
      Move user again e (e.scheduleCommand cmd)
  | device (cmd : Command) (depth : ℕ) (target : cmd.targetDevice.isSome) (e' : Engine A N)
      (h : dispatchDevice cmd 1 none depth e = .ok e') : Move user again e e'
  | retry (fuel : ℕ) (key : TimerKey) (p : PendingRetry) (may : again key)
      (pending : e.retries.lookup key = some p) (e' : Engine A N)
      (h : dispatchAt fuel p.command p.attempt (some p.serial) 0
        { e with retries := e.retries.erase key } = .ok e') : Move user again e e'

abbrev Moves (user : Command → Prop) (again : TimerKey → Prop) :
    Engine A N → Engine A N → Prop := ReflTransGen (Move user again)

/-- The commands every rule holds meet `user`. -/
def RulesIn (user : Command → Prop) (e : Engine A N) : Prop :=
  ∀ r ∈ e.rules, ∀ c ∈ r.commands, user c

section Decomposition
variable {user : Command → Prop} {again : TimerKey → Prop} {e e' : Engine A N}

theorem Act.move {depth : ℕ} (h : Act user depth e e') : Move user again e e' := by
  cases h with
  | dispatched cmd => exact .notice _
  | expanded scene count => exact .notice _
  | timer cmd ht hu => exact .timer cmd ht hu
  | device cmd target e' h => exact .device cmd depth target e' h

theorem acts_moves {depth : ℕ} (h : ReflTransGen (Act user depth) e e') : Moves user again e e' :=
  h.lift id fun _ _ => Act.move

theorem moves_foldl {α : Type} {f : Engine A N → α → Engine A N}
    (hf : ∀ e a, Moves user again e (f e a)) (xs : List α) (e : Engine A N) :
    Moves user again e (xs.foldl f e) := by
  induction xs generalizing e with
  | nil => exact .refl
  | cons a xs ih => exact (hf e a).trans (ih (f e a))

theorem fire_moves {fuel depth : ℕ} {rule : Rule} (hc : ∀ c ∈ rule.commands, user c)
    (hs : e.ScenesIn user) (h : fire fuel rule depth e = .ok e') : Moves user again e e' :=
  .head (.firing rule.id) (acts_moves (dispatchAll_acts user hc hs h))

theorem fire_scenes {fuel depth : ℕ} {rule : Rule} (h : fire fuel rule depth e = .ok e') :
    e'.scenes = e.scenes := by
  have hi : Internal (fun _ => True) depth e e' := .of_fire trivial h
  exact hi.scenes

theorem runFired_moves {fuel depth : ℕ} {fired : List Rule}
    (hc : ∀ r ∈ fired, ∀ c ∈ r.commands, user c) (hs : e.ScenesIn user)
    (h : runFired fuel fired depth e = .ok e') : Moves user again e e' := by
  -- the scenes stay the same while the rules are armed and fired one by one
  have hrun : Moves user again e e' ∧ e'.ScenesIn user := by
    refine runFired_induct (I := fun b => Moves user again e b ∧ b.ScenesIn user)
      (fun r _ after _ b hb => ?_) (fun r hm _ b b' hb hf => ?_) h ⟨.refl,hs⟩
    · have hi : Internal (fun _ => True) depth b (b.armForTimer r.id after) :=
        .of_armForTimer b r.id after
      refine ⟨hb.1.tail (.arm r.id after),?_⟩
      rw [ScenesIn,hi.scenes]
      exact hb.2
    · refine ⟨hb.1.trans (fire_moves (hc r hm) hb.2 hf),?_⟩
      rw [ScenesIn,fire_scenes hf]
      exact hb.2
  exact hrun.1

omit [Adapter A] in
theorem wiring_received (e : Engine A N) (ev : Event) (depth : ℕ) :
    ((e.received ev depth).foldState ev).scenes = e.scenes ∧
      ((e.received ev depth).foldState ev).rules = e.rules := by
  cases ev <;> exact ⟨rfl,rfl⟩

omit [Adapter A] [NorthboundAdapter N] in
/-- A request asks for no timer. -/
theorem isTimer_of_requested {device : DeviceId} {desired : Desired} {cmd : Command}
    (h : commandForRequestedChange device desired = some cmd) : cmd.isTimer = false := by
  cases desired with
  | set state => cases state <;> cases h <;> rfl
  | toggle => cases h; rfl
  | adjustBrightness delta =>
    simp only [commandForRequestedChange] at h
    split_ifs at h <;> cases h <;> rfl
  | sendIr code => cases h; rfl

/-- Every event is processed by moves, starting from the engine that took it off the queue. -/
theorem Processed.moves {π : HashOrder} {fuel depth : ℕ} {ev : Event}
    (free : ∀ c : Command, c.isTimer = false → user c) (hr : e.RulesIn user)
    (hs : e.ScenesIn user) (hg : ∀ key, ev = .timerElapsed key → (e.retries.lookup key).isSome →
      again key) (h : Processed π fuel depth e ev e') : Moves user again e e' := by
  cases h with
  | dropped ev deep => exact .single (.notice _)
  | retried key p e' le pending h =>
    refine .head (.notice (.eventReceived (.timerElapsed key) depth)) ?_
    exact .single (.retry (e := e.received (.timerElapsed key) depth) fuel key p
      (hg key rfl (by simp [pending])) pending e' h)
  | elapsed key e' le fresh own h =>
    refine .head (.notice (.eventReceived (.timerElapsed key) depth)) ?_
    obtain rfl | ⟨id,-,h⟩ := fireElapsedFor_cases h
    · exact .refl
    refine .head (.elapse id) ?_
    obtain rfl | ⟨rule,-,found,-,h⟩ := h
    · exact .refl
    · exact fire_moves (hr rule (List.mem_of_find?_eq_some found)) hs h
  | changed device desired e' le h =>
    refine .head (.notice (.eventReceived (.requestedChange device desired) depth)) ?_
    simp only [requestChange] at h
    split at h
    · rename_i cmd hcmd
      obtain ⟨e₁,h₁,h₂⟩ := bind_ok_iff.mp h
      cases h₂
      have hc : user cmd := free cmd (isTimer_of_requested hcmd)
      have hs' : (e.received (.requestedChange device desired) depth).ScenesIn user := hs
      exact (acts_moves (dispatchAt_acts user hc hs' h₁)).tail (.refan device desired.kind)
    · cases h
      exact .single (.refan device desired.kind)
  | activated scene e' le h =>
    have hs' : (e.received (.requestedScene scene) depth).ScenesIn user := hs
    exact .head (.notice _) (acts_moves (dispatchAt_acts user (free _ rfl) hs' h))
  | reacted ev e' le ordinary report h =>
    refine .head (.notice (.eventReceived ev depth)) (.head (.fold ev) ?_)
    obtain ⟨e₂,h₂,hfired,h⟩ := react_cases h
    have hw := wiring_received e ev depth
    change Moves user again ((e.received ev depth).foldState ev) e'
    have hm₂ : Moves user again ((e.received ev depth).foldState ev) e₂ := by
      rcases h₂ with rfl | rfl
      · exact .refl
      · exact moves_foldl (fun e r => .single (.cancel r)) _ _
    have hk : Moves user again e₂ (e₂.considerRules ev (e.prior ev)).1 :=
      moves_foldl (fun e r => .single (.notice _)) _ e₂
    have hi : Internal (fun _ => True) 0 ((e.received ev depth).foldState ev)
        (e₂.considerRules ev (e.prior ev)).1 :=
      (Internal.of_reverted h₂).trans (.of_considerRules e₂ ev _)
    refine (hm₂.trans hk).trans (runFired_moves (fun r hm => hr r ((hfired r).mp hm).1) ?_ h)
    rw [ScenesIn,hi.scenes,hw.1]
    exact hs

theorem process_moves {π : HashOrder} {fuel depth : ℕ} {ev : Event}
    (free : ∀ c : Command, c.isTimer = false → user c) (hr : e.RulesIn user)
    (hs : e.ScenesIn user) (hg : ∀ key, ev = .timerElapsed key → (e.retries.lookup key).isSome →
      again key) (h : process π fuel ev depth e = .ok e') : Moves user again e e' :=
  (process_processed h).moves free hr hs hg

end Decomposition
end Engine
end Domiform
