import Domiform.Engine.Elapsing
import Domiform.Waiting

/-! The `for:` timer of one rule, and what an event can do to it. Only three things touch it: a report
that falsifies the rule's predicate cancels it, an edge arms it, and its own expiry spends it. -/
namespace Domiform
open Library Relation

namespace Engine
variable {A N : Type} {id : RuleId} {d : Millis} {e e' e'' : Engine A N}

/-- The timer of the rule, armed or not, stays as it is. -/
structure Kept (id : RuleId) (e e' : Engine A N) : Prop where
  pendingFor : e'.pendingFor.lookup id = e.pendingFor.lookup id
  dueAt : ∀ key, e.pendingFor.lookup id = some ⟨key⟩ → e'.dueAt key = e.dueAt key

/-- The timer of the rule runs until the given time. -/
def Armed (id : RuleId) (t : Millis) (e : Engine A N) : Prop :=
  ∃ key, e.pendingFor.lookup id = some ⟨key⟩ ∧ e.dueAt key = some t

namespace Kept

theorem of_eq (hp : e'.pendingFor = e.pendingFor) (ha : e'.adapters = e.adapters) :
    Kept id e e' := by
  refine ⟨by rw [hp],fun key _ => ?_⟩
  unfold Engine.dueAt
  rw [ha]

theorem refl (e : Engine A N) : Kept id e e := of_eq rfl rfl

theorem trans (h : Kept id e e') (h' : Kept id e' e'') : Kept id e e'' := by
  refine ⟨h'.pendingFor.trans h.pendingFor,fun key hk => ?_⟩
  exact (h'.dueAt key (h.pendingFor.trans hk)).trans (h.dueAt key hk)

theorem armed (h : Kept id e e') {t : Millis} (ha : Armed id t e) : Armed id t e' := by
  obtain ⟨key,hk,hd⟩ := ha
  exact ⟨key,h.pendingFor.trans hk,(h.dueAt key hk).trans hd⟩

end Kept

/-- The key a rule waits for was issued. -/
theorem Keyed.issued (keyed : e.Keyed) {key : TimerKey}
    (waiting : e.pendingFor.lookup id = some ⟨key⟩) : Own key ∧ e.Issued key := by
  obtain ⟨n,hn,hk⟩ := keyed.waiting id _ waiting
  obtain rfl : key = forKey (n+1) := hk
  exact ⟨.waiting n,.inl ⟨n+1,hn,rfl⟩⟩

/-- The timers of other rules carry other keys. -/
theorem Keyed.lookup_ne (keyed : e.Keyed) {rule : RuleId} (other : rule ≠ id) {key : TimerKey}
    (waiting : e.pendingFor.lookup id = some ⟨key⟩) : e.pendingFor.lookup rule ≠ some ⟨key⟩ := by
  intro h
  exact other (keyed.distinct rule id _ h waiting)

section Others
variable (keyed : e.Keyed) {rule : RuleId} (other : rule ≠ id)
include keyed other

theorem cancelForTimer_kept : Kept id e (e.cancelForTimer rule) := by
  refine ⟨?_,fun key hk => ?_⟩
  · rw [cancelForTimer_pendingFor,if_neg other.symm]
  · rw [cancelForTimer_dueAt,if_neg (keyed.lookup_ne other hk)]

theorem armForTimer_kept (after : Millis) : Kept id e (e.armForTimer rule after) := by
  refine ⟨?_,fun key hk => ?_⟩
  · rw [armForTimer_pendingFor,if_neg other.symm]
  · rw [armForTimer_dueAt,if_neg (keyed.issued hk).2.ne_next_for,if_neg (keyed.lookup_ne other hk)]

omit keyed in
theorem erasePendingFor_kept : Kept id e { e with pendingFor := e.pendingFor.erase rule } := by
  refine ⟨?_,fun key _ => rfl⟩
  exact (HashMap.lookup_erase _ _ _).trans (if_neg other.symm)

end Others

section Cancel
variable {π : HashOrder}

/-- Cancelling a list of rules clears the timers of exactly these. -/
theorem foldl_cancelForTimer_pendingFor (rules : List RuleId) (e : Engine A N) :
    (rules.foldl cancelForTimer e).pendingFor.lookup id =
      if id ∈ rules then none else e.pendingFor.lookup id := by
  induction rules generalizing e with
  | nil => simp
  | cons rule rules ih =>
    rw [List.foldl_cons,ih,cancelForTimer_pendingFor]
    by_cases hm : id ∈ rules
    · simp [hm]
    · by_cases hr : id = rule <;> simp [hm,hr]

theorem foldl_cancelForTimer_kept {rules : List RuleId} (keyed : e.Keyed) (spared : id ∉ rules) :
    Kept id e (rules.foldl cancelForTimer e) := by
  induction rules generalizing e with
  | nil => exact .refl e
  | cons rule rules ih =>
    rw [List.mem_cons,not_or] at spared
    rw [List.foldl_cons]
    exact (cancelForTimer_kept keyed (Ne.symm spared.1)).trans (ih (keyed.cancelForTimer rule) spared.2)

/-- A waiting rule is cancelled when its predicate does not hold. -/
theorem mem_revertedRules (distinct : e.RulesDistinct) {r : Rule} (hr : r ∈ e.rules) :
    r.id ∈ e.revertedRules π ↔
      (e.pendingFor.lookup r.id).isSome ∧ r.trigger.predicateHolds e.state = false := by
  unfold revertedRules
  rw [List.mem_filter,distinct.find hr,List.mem_map]
  dsimp only
  rw [Bool.not_eq_true']
  refine and_congr_left fun _ => ?_
  constructor
  · rintro ⟨⟨rule,p⟩,hm,rfl⟩
    rw [HashMap.mem_iter.mp hm]
    rfl
  · intro hp
    obtain ⟨p,hp⟩ := Option.isSome_iff_exists.mp hp
    exact ⟨_,HashMap.mem_iter.mpr hp,rfl⟩

theorem cancelReverted_kept (keyed : e.Keyed) (distinct : e.RulesDistinct) {r : Rule}
    (hr : r ∈ e.rules) (holds : r.trigger.predicateHolds e.state = true) :
    Kept r.id e (e.cancelRevertedForTimers π) := by
  apply foldl_cancelForTimer_kept keyed
  rw [mem_revertedRules distinct hr]
  simp [holds]

theorem cancelReverted_pendingFor (distinct : e.RulesDistinct) {r : Rule} (hr : r ∈ e.rules)
    (fails : r.trigger.predicateHolds e.state = false) :
    (e.cancelRevertedForTimers π).pendingFor.lookup r.id = none := by
  unfold cancelRevertedForTimers
  rw [foldl_cancelForTimer_pendingFor]
  split_ifs with hm
  · rfl
  · rw [mem_revertedRules distinct hr] at hm
    cases hp : e.pendingFor.lookup r.id with
    | none => rfl
    | some p => exact absurd ⟨by simp [hp],fails⟩ hm

end Cancel

section Arm

theorem armForTimer_now (e : Engine A N) (rule : RuleId) (after : Millis) :
    (e.armForTimer rule after).now = e.now := by
  unfold armForTimer
  cases e.pendingFor.lookup rule <;> rfl

/-- Unless the fire time wraps, the timer runs for the whole duration. -/
theorem armForTimer_armed (e : Engine A N) (id : RuleId) (d : Millis)
    (nowrap : (e.armForTimer id d).overflowed = false) :
    Armed id (e.now+d) (e.armForTimer id d) := by
  have hlt : e.now+d < 2^64 := by
    unfold armForTimer at nowrap
    cases hl : e.pendingFor.lookup id with
    | none =>
      rw [hl] at nowrap
      simpa [schedule,overflows] using (Bool.or_eq_false_iff.mp nowrap).2
    | some prev =>
      rw [hl] at nowrap
      simpa [schedule,overflows] using (Bool.or_eq_false_iff.mp nowrap).2
  refine ⟨forKey (e.forCounter+1),?_,?_⟩
  · rw [armForTimer_pendingFor,if_pos rfl]
  · rw [armForTimer_dueAt,if_pos rfl,addMillis_of_lt hlt]

theorem armAll_keyed (fired : List Rule) (keyed : e.Keyed) : (armAll fired e).Keyed :=
  armAll_induct fired (fun r _ after _ _ hb => hb.armForTimer r.id after) keyed

theorem armAll_kept {fired : List Rule} (keyed : e.Keyed) (spared : ∀ r ∈ fired, r.id ≠ id) :
    Kept id e (armAll fired e) := by
  induction fired generalizing e with
  | nil => exact .refl e
  | cons r fired ih =>
    have hr := spared r (List.mem_cons_self ..)
    have ht (r') (hm : r' ∈ fired) : r'.id ≠ id := spared r' (List.mem_cons_of_mem _ hm)
    unfold armAll
    rw [List.foldl_cons]
    cases hd : r.forDuration with
    | none => exact ih keyed ht
    | some d => exact (armForTimer_kept keyed hr d).trans (ih (keyed.armForTimer r.id d) ht)

variable [Adapter A] [NorthboundAdapter N]

/-- A waiting rule of the list is armed, provided no fire time wraps. -/
theorem armAll_armed {fired : List Rule} (keyed : e.Keyed) {r : Rule} (hr : r ∈ fired)
    (hd : r.forDuration = some d) (unique : ∀ r' ∈ fired, r'.id = r.id → r' = r)
    (nowrap : (armAll fired e).overflowed = false) : Armed r.id (e.now+d) (armAll fired e) := by
  induction fired generalizing e with
  | nil => cases hr
  | cons a fired ih =>
    have ht (r') (hm : r' ∈ fired) : r'.id = r.id → r' = r := unique r' (List.mem_cons_of_mem _ hm)
    unfold armAll at nowrap ⊢
    rw [List.foldl_cons] at nowrap ⊢
    by_cases hm : r ∈ fired
    · -- it is armed again later in the list
      cases hda : a.forDuration with
      | none =>
        rw [hda] at nowrap
        exact ih keyed hm ht nowrap
      | some da =>
        rw [hda] at nowrap
        have h := ih (keyed.armForTimer a.id da) hm ht nowrap
        rwa [armForTimer_now] at h
    · obtain rfl : r = a := (List.mem_cons.mp hr).resolve_right hm
      simp only [hd] at nowrap ⊢
      have spared (r') (hm' : r' ∈ fired) : r'.id ≠ r.id := by
        intro hid
        rw [ht r' hm' hid] at hm'
        exact hm hm'
      have hx := (Internal.of_armAll fired _ : Internal (fun _ => True) 0
        (e.armForTimer r.id d) _).overflowed nowrap
      exact (armAll_kept (keyed.armForTimer r.id d) spared).armed (armForTimer_armed e r.id d hx)

end Arm

section Dispatch
variable [Adapter A]

theorem acts_kept (keyed : e.Keyed) {depth : ℕ} (h : ReflTransGen (Act (Command.Avoids Own) depth) e e') :
    Kept id e e' := by
  refine ⟨by rw [(acts_frame h).pendingFor],fun key hk => ?_⟩
  obtain ⟨own,issued⟩ := keyed.issued hk
  exact (acts_dueAt h own issued).1

theorem fire_kept {fuel depth : ℕ} {rule : Rule} (keyed : e.Keyed) (hs : e.ScenesIn (Command.Avoids Own))
    (hc : ∀ c ∈ rule.commands, c.Avoids Own) (h : fire fuel rule depth e = .ok e') : Kept id e e' := by
  have keyed' : (e.record (.firing rule.id e.state)).Keyed := keyed.of_eq rfl rfl rfl rfl
  have hr : Kept id e (e.record (.firing rule.id e.state)) := .of_eq rfl rfl
  exact hr.trans (acts_kept keyed' (dispatchAll_acts _ hc hs h))

theorem retry_kept (keyed : e.Keyed) {fuel : ℕ} {key : TimerKey} {p : PendingRetry}
    (pending : e.retries.lookup key = some p)
    (h : dispatchAt fuel p.command p.attempt (some p.serial) 0
      { e with retries := e.retries.erase key } = .ok e') : Kept id e e' := by
  refine ⟨by rw [(dispatchAt_frame h).pendingFor],fun k hk => ?_⟩
  obtain ⟨cmd,target,-,hd⟩ := retry_dispatched keyed pending h
  exact (dispatchDevice_retried target hd).dueAt (keyed.issued hk).2.ne_next_retry

variable [NorthboundAdapter N]

theorem runFired_kept {fuel depth : ℕ} {fired : List Rule} (keyed : e.Keyed)
    (hs : e.ScenesIn (Command.Avoids Own)) (hc : ∀ r ∈ fired, ∀ c ∈ r.commands, c.Avoids Own)
    (h : runFired fuel fired depth e = .ok e') : Kept id (armAll fired e) e' := by
  have hs' : (armAll fired e).ScenesIn (Command.Avoids Own) := by
    unfold ScenesIn
    rw [(Internal.of_armAll fired e : Internal (fun _ => True) 0 e _).scenes]
    exact hs
  have hrun : Kept id (armAll fired e) e' ∧ e'.Keyed ∧ e'.ScenesIn (Command.Avoids Own) := by
    refine foldlM_ok_induct (I := fun b => Kept id (armAll fired e) b ∧ b.Keyed ∧
      b.ScenesIn (Command.Avoids Own)) ?_ ⟨.refl _,armAll_keyed fired keyed,hs'⟩ h
    intro r hm b b' hb hf
    obtain ⟨hk,hkeyed,hscenes⟩ := hb
    have hcr := hc r (List.mem_filter.mp hm).1
    refine ⟨hk.trans (fire_kept hkeyed hscenes hcr hf),?_,?_⟩
    · have hm : Moves (Command.Avoids Own) (fun _ => False) b b' := fire_moves hcr hscenes hf
      exact hkeyed.moves hm
    · unfold ScenesIn
      rw [fire_scenes hf]
      exact hscenes
  exact hrun.1

/-- Up to the point where rules fire, a report leaves the timer of a rule whose predicate holds and
clears that of one whose predicate does not. -/
theorem react_report {π : HashOrder} {fuel depth : ℕ} {device : DeviceId} {v : CapabilityState}
    (keyed : e.Keyed) (distinct : e.RulesDistinct) {r : Rule} (hr : r ∈ e.rules)
    (h : react π fuel (.stateReported device v) depth e = .ok e') : ∃ e₁ fired,
      runFired fuel fired depth e₁ = .ok e' ∧ e₁.Keyed ∧ e₁.now = e.now ∧ e₁.scenes = e.scenes ∧
        (∀ r', r' ∈ fired ↔ r' ∈ e.rules ∧
          r'.trigger.matchesEvent (.stateReported device v) (e.state.get device v.kind) = true ∧
          r'.condition.eval (e.state.set device v) = .true) ∧
        (r.trigger.predicateHolds (e.state.set device v) = true → Kept r.id e e₁) ∧
        (r.trigger.predicateHolds (e.state.set device v) = false →
          e₁.pendingFor.lookup r.id = none) := by
  rw [react_eq] at h
  simp only [if_true] at h
  generalize he₁ : e.foldState (.stateReported device v) = e₁ at h
  have hk₁ : Kept r.id e e₁ := by
    rw [← he₁]
    exact .of_eq rfl rfl
  have keyed₁ : e₁.Keyed := by
    rw [← he₁]
    exact keyed.of_eq rfl rfl rfl rfl
  have distinct₁ : e₁.RulesDistinct := by
    rw [← he₁]
    exact distinct
  have hr₁ : r ∈ e₁.rules := by
    rw [← he₁]
    exact hr
  have hs₁ : e₁.state = e.state.set device v := by
    rw [← he₁]
    rfl
  have hc : Internal (fun _ => True) depth e₁ (e₁.cancelRevertedForTimers π) :=
    .of_cancelRevertedForTimers π e₁
  have hrules : (e₁.cancelRevertedForTimers π).rules = e.rules := by
    rw [hc.rules,← he₁]
    rfl
  have hstate : (e₁.cancelRevertedForTimers π).state = e.state.set device v := hc.state.trans hs₁
  have hmoves : Moves (fun _ => True) (fun _ => False) e₁ (e₁.cancelRevertedForTimers π) :=
    moves_foldl (fun _ rule => .single (.cancel rule)) _ e₁
  have keyed₂ := keyed₁.moves hmoves
  have hfst := considerRules_fst (e₁.cancelRevertedForTimers π) (.stateReported device v)
    (e.prior (.stateReported device v))
  refine ⟨_,_,h,?_,?_,?_,fun r' => ?_,fun holds => ?_,fun fails => ?_⟩
  · rw [hfst]
    exact keyed₂.of_eq rfl rfl rfl rfl
  · rw [hfst]
    exact hc.now.trans (by rw [← he₁]; rfl)
  · rw [hfst]
    exact hc.scenes.trans (by rw [← he₁]; rfl)
  · simp only [considerRules,List.mem_filter,Truth.isTrue_iff,hrules,hstate,and_assoc]
    rfl
  · have hk : Kept r.id e₁ (e₁.cancelRevertedForTimers π) :=
      cancelReverted_kept keyed₁ distinct₁ hr₁ (by rwa [hs₁])
    apply (hk₁.trans hk).trans
    rw [hfst]
    exact .of_eq rfl rfl
  · rw [hfst]
    exact cancelReverted_pendingFor distinct₁ hr₁ (by rwa [hs₁])

/-- What is no report is neither folded nor cancels anything. -/
theorem react_quiet {π : HashOrder} {fuel depth : ℕ} {ev : Event}
    (quiet : ∀ device v, ev ≠ .stateReported device v) : react π fuel ev depth e =
      runFired fuel (e.considerRules ev none).2 depth (e.considerRules ev none).1 := by
  cases ev with
  | stateReported device v => exact absurd rfl (quiet device v)
  | _ => rfl

/-- Every event but a report, and but the rule's own expiry, leaves the rule's timer alone. -/
theorem Processed.kept {π : HashOrder} {fuel depth : ℕ} {ev : Event} (keyed : e.Keyed)
    (distinct : e.RulesDistinct) (avoid : e.CommandsIn (Command.Avoids Own)) {r : Rule} (hr : r ∈ e.rules)
    (edge : r.trigger.watched.isSome) (quiet : ∀ device v, ev ≠ .stateReported device v)
    (foreign : ∀ key, e.pendingFor.lookup r.id = some ⟨key⟩ → ev ≠ .timerElapsed key)
    (h : Processed π fuel depth e ev e') : Kept r.id e e' := by
  have start : Kept r.id e (e.received ev depth) := .of_eq rfl rfl
  have keyed₁ : (e.received ev depth).Keyed := keyed.of_eq rfl rfl rfl rfl
  cases h with
  | dropped ev deep => exact .of_eq rfl rfl
  | retried key p e' le pending h =>
    exact start.trans (retry_kept (e := e.received (.timerElapsed key) depth) keyed₁ pending h)
  | elapsed key e' le fresh own h =>
    obtain rfl | ⟨rule,waiting,h⟩ := fireElapsedFor_cases h
    · exact start
    have other : rule ≠ r.id := by
      rintro rfl
      exact foreign key waiting rfl
    have erased := start.trans (erasePendingFor_kept (e := e.received (.timerElapsed key) depth) other)
    obtain rfl | ⟨rule',-,found,-,h⟩ := h
    · exact erased
    have keyed₂ : ({ e.received (.timerElapsed key) depth with
        pendingFor := e.pendingFor.erase rule } : Engine A N).Keyed :=
      keyed₁.erasePendingFor rule rfl rfl rfl rfl
    exact erased.trans (fire_kept keyed₂ avoid.scenes
      (avoid.rules rule' (List.mem_of_find?_eq_some found)) h)
  | changed device desired e' le h =>
    simp only [requestChange] at h
    have hfan (e₁ : Engine A N) : Kept r.id e₁ (e₁.refan device desired.kind) := by
      unfold refan
      split <;> exact .of_eq rfl rfl
    split at h
    · rename_i cmd hcmd
      obtain ⟨e₁,h₁,h₂⟩ := bind_ok_iff.mp h
      cases h₂
      have hc : cmd.Avoids Own := .of_not_timer (isTimer_of_requested hcmd)
      exact (start.trans (acts_kept keyed₁ (dispatchAt_acts _ hc avoid.scenes h₁))).trans (hfan e₁)
    · cases h
      exact start.trans (hfan _)
  | activated scene e' le h =>
    exact start.trans (acts_kept keyed₁ (dispatchAt_acts _ (.of_not_timer rfl) avoid.scenes h))
  | reacted ev e' le ordinary report h =>
    rw [react_quiet quiet] at h
    have hfst := considerRules_fst (e.received ev depth) ev none
    have keyed₂ : ((e.received ev depth).considerRules ev none).1.Keyed := by
      rw [hfst]
      exact keyed₁.of_eq rfl rfl rfl rfl
    have hmem (r') (hm : r' ∈ ((e.received ev depth).considerRules ev none).2) :
        r' ∈ e.rules ∧ r'.trigger.matchesEvent ev none = true :=
      List.mem_filter.mp (List.mem_filter.mp hm).1
    have considered : Kept r.id (e.received ev depth)
        ((e.received ev depth).considerRules ev none).1 := by
      rw [hfst]
      exact .of_eq rfl rfl
    -- an edge trigger matches reports alone
    have spared (r') (hm : r' ∈ ((e.received ev depth).considerRules ev none).2) :
        r'.id ≠ r.id := by
      intro hid
      obtain ⟨hr',hmatch⟩ := hmem r' hm
      rw [distinct.eq_of_id hr' hr hid] at hmatch
      obtain ⟨device,v,rfl,-⟩ := Trigger.matchesEvent_edge edge hmatch
      exact quiet device v rfl
    apply ((start.trans considered).trans (armAll_kept keyed₂ spared)).trans
    refine runFired_kept keyed₂ ?_ (fun r' hm => avoid.rules r' (hmem r' hm).1) h
    rw [hfst]
    exact avoid.scenes

end Dispatch
end Engine
end Domiform
