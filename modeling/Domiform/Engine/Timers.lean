import Domiform.Engine.Moves

/-! The engine's own timers. A retry and a `for:` wait each take a fresh number, so that no two of
them ever share a key. -/
namespace Domiform
open Library Relation

namespace Engine
variable {A N : Type}

/-- The timers the engine keeps for itself carry numbers already handed out, and no two `for:` waits
carry the same one. -/
structure Keyed (e : Engine A N) : Prop where
  waiting : ∀ rule p, e.pendingFor.lookup rule = some p → ∃ n < e.forCounter, p.key = forKey (n+1)
  distinct : ∀ rule rule' p, e.pendingFor.lookup rule = some p →
    e.pendingFor.lookup rule' = some p → rule = rule'
  retrying : ∀ key p, e.retries.lookup key = some p →
    (∃ n < e.retryCounter, key = retryKey (n+1)) ∧ p.command.targetDevice.isSome

/-- What a device command does to the engine's own timers: nothing, or one more retry. -/
inductive Retried (e : Engine A N) : Engine A N → Prop
  | kept {e' : Engine A N} (retries : e'.retries = e.retries)
      (counter : e'.retryCounter = e.retryCounter)
      (scheduler : e'.adapters.scheduler = e.adapters.scheduler) : Retried e e'
  | scheduled {e' : Engine A N} (p : PendingRetry) (delay : Millis)
      (target : p.command.targetDevice.isSome)
      (retries : e'.retries = e.retries.insert (retryKey (e.retryCounter+1)) p)
      (counter : e'.retryCounter = e.retryCounter+1)
      (scheduler : e'.adapters.scheduler.pending = e.adapters.scheduler.pending.insert
        (retryKey (e.retryCounter+1)) (addMillis e.now delay)) : Retried e e'

theorem handleOutcome_retried (e : Engine A N) (outcome : DispatchOutcome) {cmd : Command}
    (target : cmd.targetDevice.isSome) (attempt serial depth : ℕ) :
    Retried e (e.handleOutcome outcome cmd attempt serial depth) := by
  cases outcome with
  | ok evs => exact .kept rfl rfl rfl
  | transient reason =>
    simp only [handleOutcome]
    split_ifs
    · exact .scheduled ⟨cmd,attempt+1,serial⟩ (e.retry.backoff attempt) target rfl rfl rfl
    · exact .kept rfl rfl rfl
  | permanent reason => exact .kept rfl rfl rfl

variable [Adapter A]

theorem dispatchDevice_retried {cmd : Command} (target : cmd.targetDevice.isSome)
    {attempt depth : ℕ} {origin : Option ℕ} {e e' : Engine A N}
    (h : dispatchDevice cmd attempt origin depth e = .ok e') : Retried e e' := by
  have hr := dispatchDevice_routed h
  have hi : (e.issue cmd origin).2.retries = e.retries ∧
      (e.issue cmd origin).2.retryCounter = e.retryCounter ∧
      (e.issue cmd origin).2.adapters = e.adapters ∧ (e.issue cmd origin).2.now = e.now := by
    cases origin <;> exact ⟨rfl,rfl,rfl,rfl⟩
  generalize (e.issue cmd origin).2 = e₁ at hr hi
  obtain ⟨h₁,h₂,h₃,h₄⟩ := hi
  -- nothing before the outcome is handled touches the timers
  have lift (e₂ : Engine A N) (hs : e₂.adapters.scheduler = e.adapters.scheduler)
      (hret : e₂.retries = e.retries) (hc : e₂.retryCounter = e.retryCounter)
      (hn : e₂.now = e.now) (h : Retried e₂ e') : Retried e e' := by
    cases h with
    | kept a b c => exact .kept (a.trans hret) (b.trans hc) (c.trans hs)
    | scheduled p delay t a b c =>
      rw [hret,hc] at a
      rw [hs,hc,hn] at c
      exact .scheduled p delay t a (by rw [b,hc]) c
  cases hr with
  | bound idx outcome adapters hb ho =>
    let e₂ := (e₁.handOver idx cmd adapters).record
      (.handed idx cmd attempt (e.issue cmd origin).1 outcome)
    refine lift e₂ ?_ h₁ h₂ h₄ (handleOutcome_retried e₂ outcome target attempt _ depth)
    exact (scheduler_of_dispatch target ho).trans (congrArg _ h₃)
  | unbound hb =>
    exact lift _ (congrArg _ h₃) h₁ h₂ h₄ (handleOutcome_retried _ _ target attempt _ depth)

namespace Keyed
variable {e e' : Engine A N}

omit [Adapter A] in
theorem of_eq (h : e.Keyed) (h₁ : e'.pendingFor = e.pendingFor) (h₂ : e'.forCounter = e.forCounter)
    (h₃ : e'.retries = e.retries) (h₄ : e'.retryCounter = e.retryCounter) : e'.Keyed := by
  obtain ⟨hw,hd,hr⟩ := h
  exact ⟨by rwa [h₁,h₂],by rwa [h₁],by rwa [h₃,h₄]⟩

omit [Adapter A] in
theorem notify (h : e.Keyed) (n : Notice) : (e.notify n).Keyed := h.of_eq rfl rfl rfl rfl

omit [Adapter A] in
theorem erasePendingFor (h : e.Keyed) (rule : RuleId) (h₁ : e'.pendingFor = e.pendingFor.erase rule)
    (h₂ : e'.forCounter = e.forCounter) (h₃ : e'.retries = e.retries)
    (h₄ : e'.retryCounter = e.retryCounter) : e'.Keyed := by
  have hl (r p) (hp : e'.pendingFor.lookup r = some p) : e.pendingFor.lookup r = some p := by
    rw [h₁,HashMap.lookup_erase] at hp
    split_ifs at hp
    exact hp
  refine ⟨fun r p hp => ?_,fun r r' p hp hp' => h.distinct r r' p (hl r p hp) (hl r' p hp'),?_⟩
  · rw [h₂]
    exact h.waiting r p (hl r p hp)
  · rw [h₃,h₄]
    exact h.retrying

omit [Adapter A] in
theorem cancelForTimer (h : e.Keyed) (rule : RuleId) : (e.cancelForTimer rule).Keyed := by
  rw [Engine.cancelForTimer]
  split
  · exact h.erasePendingFor rule rfl rfl rfl rfl
  · exact h

omit [Adapter A] in
/-- Arming takes the next number, which no other wait carries. -/
theorem armForTimer (h : e.Keyed) (rule : RuleId) (after : Millis) :
    (e.armForTimer rule after).Keyed := by
  have arm {e : Engine A N} (h : e.Keyed) : ({ e with
      forCounter := e.forCounter+1
      pendingFor := e.pendingFor.insert rule ⟨forKey (e.forCounter+1)⟩ }.schedule
        (.scheduleTimer (forKey (e.forCounter+1)) after)).Keyed := by
    have hl (r p) (hp : (e.pendingFor.insert rule ⟨forKey (e.forCounter+1)⟩).lookup r = some p) :
        r = rule ∧ p = ⟨forKey (e.forCounter+1)⟩ ∨ r ≠ rule ∧ e.pendingFor.lookup r = some p := by
      rw [HashMap.lookup_insert] at hp
      split_ifs at hp with hr
      · exact .inl ⟨hr,(Option.some.inj hp).symm⟩
      · exact .inr ⟨hr,hp⟩
    have fresh (r) : e.pendingFor.lookup r ≠ some ⟨forKey (e.forCounter+1)⟩ := by
      intro hp
      obtain ⟨n,hn,hk⟩ := h.waiting r _ hp
      have := forKey_injective hk
      omega
    refine ⟨fun r p hp => ?_,fun r r' p hp hp' => ?_,h.retrying⟩
    · rcases hl r p hp with ⟨-,rfl⟩ | ⟨-,hp⟩
      · exact ⟨e.forCounter,Nat.lt_succ_self _,rfl⟩
      · obtain ⟨n,hn,hk⟩ := h.waiting r p hp
        exact ⟨n,Nat.lt_succ_of_lt hn,hk⟩
    · rcases hl r p hp with ⟨rfl,rfl⟩ | ⟨-,hp⟩
      · rcases hl r' _ hp' with ⟨rfl,-⟩ | ⟨-,hp'⟩
        · rfl
        · exact absurd hp' (fresh r')
      · rcases hl r' p hp' with ⟨-,rfl⟩ | ⟨-,hp'⟩
        · exact absurd hp (fresh r)
        · exact h.distinct r r' p hp hp'
  rw [Engine.armForTimer]
  cases hl : e.pendingFor.lookup rule with
  | none => exact arm h
  | some prev =>
    exact arm (e := { e with pendingFor := e.pendingFor.erase rule }.schedule (.cancelTimer prev.key))
      (h.erasePendingFor rule rfl rfl rfl rfl)

omit [Adapter A] in
theorem retried (h : e.Keyed) (hr : Retried e e') (h₁ : e'.pendingFor = e.pendingFor)
    (h₂ : e'.forCounter = e.forCounter) : e'.Keyed := by
  cases hr with
  | kept h₃ h₄ _ => exact h.of_eq h₁ h₂ h₃ h₄
  | scheduled p delay target h₃ h₄ _ =>
    refine ⟨by rw [h₁,h₂]; exact h.waiting,by rw [h₁]; exact h.distinct,fun key q hq => ?_⟩
    rw [h₃,HashMap.lookup_insert] at hq
    rw [h₄]
    split_ifs at hq with hk
    · cases hq
      exact ⟨⟨_,Nat.lt_succ_self _,hk⟩,target⟩
    · obtain ⟨⟨n,hn,he⟩,ht⟩ := h.retrying key q hq
      exact ⟨⟨n,Nat.lt_succ_of_lt hn,he⟩,ht⟩

theorem dispatchDevice (h : e.Keyed) {cmd : Command} (target : cmd.targetDevice.isSome)
    {attempt depth : ℕ} {origin : Option ℕ}
    (hd : Engine.dispatchDevice cmd attempt origin depth e = .ok e') : e'.Keyed := by
  have hf := dispatchDevice_dispatched hd
  exact h.retried (dispatchDevice_retried target hd) hf.pendingFor hf.forCounter

omit [Adapter A] in
theorem eraseRetry (h : e.Keyed) (key : TimerKey) :
    ({ e with retries := e.retries.erase key } : Engine A N).Keyed := by
  refine ⟨h.waiting,h.distinct,fun k p hp => ?_⟩
  have hp' : (e.retries.erase key).lookup k = some p := hp
  rw [HashMap.lookup_erase] at hp'
  split_ifs at hp'
  exact h.retrying k p hp'

variable [NorthboundAdapter N] {user : Command → Prop} {again : TimerKey → Prop}

theorem move (h : e.Keyed) (hm : Move user again e e') : e'.Keyed := by
  cases hm with
  | notice | firing | timer => exact h.of_eq rfl rfl rfl rfl
  | fold ev => cases ev <;> exact h.of_eq rfl rfl rfl rfl
  | refan device kind =>
    rw [refan]
    split <;> exact h.of_eq rfl rfl rfl rfl
  | cancel rule => exact h.cancelForTimer rule
  | arm rule after => exact h.armForTimer rule after
  | elapse rule => exact h.erasePendingFor rule rfl rfl rfl rfl
  | device cmd depth target e' hd => exact h.dispatchDevice target hd
  | retry fuel key p may pending e' hd =>
    have target := (h.retrying key p pending).2
    cases fuel with
    | zero => cases hd
    | succ fuel =>
      rw [dispatchAt_device target] at hd
      exact ((h.eraseRetry key).notify _).dispatchDevice
        (by rwa [resolveImplicitStateCommand_targetDevice]) hd

theorem moves (h : e.Keyed) (hm : Moves user again e e') : e'.Keyed := by
  induction hm with
  | refl => exact h
  | tail _ hm ih => exact ih.move hm

end Keyed

omit [Adapter A] in
theorem Fresh.keyed {e : Engine A N} (h : e.Fresh) : e.Keyed := by
  have hr : e.retries = ∅ := congrArg Timers.retries h.timers
  have hp : e.pendingFor = ∅ := congrArg Timers.pendingFor h.timers
  exact ⟨by simp [hp],by simp [hp],by simp [hr]⟩

/-- Whatever the commands of the rules and scenes are, an event is processed in moves. -/
theorem moves_of_process [NorthboundAdapter N] {π : HashOrder} {fuel depth : ℕ} {ev : Event}
    {e e' : Engine A N} (h : process π fuel ev depth e = .ok e') :
    Moves (fun _ => True) (fun _ => True) e e' :=
  process_moves (fun _ _ => trivial) (fun _ _ _ _ => trivial) (fun _ _ _ _ _ => trivial)
    (fun _ _ _ => trivial) h

end Engine

variable {A N : Type} [Adapter A] [NorthboundAdapter N] {π : HashOrder} {host : Host N}
  {c c' : Config A N}

theorem Step.keyed (step : Step π host c c') (h : c.engine.Keyed) : c'.engine.Keyed := by
  cases step with
  | @process e e' p ev depth rest fuel next hp =>
    have hq : ({ e with queue := rest } : Engine A N).Keyed := h.of_eq rfl rfl rfl rfl
    exact hq.moves (Engine.moves_of_process hp)
  | _ => exact h.of_eq rfl rfl rfl rfl

theorem Run.keyed {e₀ : Engine A N} {p : Phase} (fresh : e₀.Fresh) (run : Run π host ⟨e₀,p⟩ c) :
    c.engine.Keyed := by
  induction run with
  | refl => exact fresh.keyed
  | tail _ step ih => exact step.keyed ih

end Domiform
