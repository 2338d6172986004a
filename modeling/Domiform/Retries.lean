import Domiform.Engine.Elapsing
import Domiform.Library.Attempts
import Domiform.Replay

/-! Retries. Every device command is accepted once, given up once, or waits for its next attempt under
one key of the scheduler. -/
namespace Domiform
open Library Relation

def DispatchOutcome.verdict : DispatchOutcome → Verdict
  | .ok _ => .accepted
  | .transient _ => .again
  | .permanent _ => .refused

/-- What an entry means to the command of the given serial. -/
def Entry.mark (serial : ℕ) : Entry → Mark DispatchOutcome
  | .issued s _ => if s = serial then .issued else .other
  | .handed _ _ attempt s outcome => if s = serial then .tried attempt outcome else .other
  | .gaveUp s => if s = serial then .failed else .other
  | _ => .other

/-- The history of one command. -/
def lifeOf (serial : ℕ) (tr : List (Millis × Entry)) : List (ℕ × Mark DispatchOutcome) :=
  tr.map fun x => (x.1,x.2.mark serial)

@[simp] theorem lifeOf_append (serial : ℕ) (xs ys : List (Millis × Entry)) :
    lifeOf serial (xs ++ ys) = lifeOf serial xs ++ lifeOf serial ys := List.map_append

/-- Where a command stands after a history, under a retry policy. -/
abbrev jobOf (policy : RetryPolicy) (serial : ℕ) (tr : List (Millis × Entry)) : Option Job :=
  Job.read DispatchOutcome.verdict policy.maxAttempts policy.backoff .unborn (lifeOf serial tr)

namespace Engine
variable {A N : Type} {policy : RetryPolicy} {serial : ℕ} {j : Job} {e e' e'' : Engine A N}

def IsRetry (key : TimerKey) : Prop := ∃ n, key = retryKey n

/-- No retry is pending for the command. -/
def NoRetry (serial : ℕ) (e : Engine A N) : Prop :=
  ∀ key p, e.retries.lookup key = some p → p.serial ≠ serial

/-- What the engine keeps of a command. One that is to be attempted again has exactly one retry, and
the timer of the retry is in the scheduler, or has elapsed and is on the queue. -/
def Standing (serial : ℕ) (e : Engine A N) : Job → Prop
  | .unborn => NoRetry serial e
  | .ready k t => serial < e.serials ∧ ∃ key p, e.retries.lookup key = some p ∧
      p.serial = serial ∧ p.attempt = k ∧
      (e.dueAt key = some t ∨ (.timerElapsed key,0) ∈ e.queue ∧ t ≤ e.now) ∧
      ∀ key' p', e.retries.lookup key' = some p' → p'.serial = serial → key' = key
  | .lost => False
  | .accepted | .failed => serial < e.serials ∧ NoRetry serial e

/-- Every command, issued or not, stands where its history says. -/
structure Accounted (policy : RetryPolicy) (e : Engine A N) : Prop where
  retry : e.retry = policy
  jobs : ∀ serial, ∃ j, jobOf policy serial e.trace = some j ∧ Standing serial e j

/-- Nothing happens to the commands whose serials meet `P`. -/
structure Calm (P : ℕ → Prop) (e e' : Engine A N) : Prop where
  now : e'.now = e.now
  serials : e.serials ≤ e'.serials
  retries : ∀ key p, P p.serial → (e'.retries.lookup key = some p ↔ e.retries.lookup key = some p)
  dueAt : ∀ key p, P p.serial → e.retries.lookup key = some p → e'.dueAt key = e.dueAt key
  queue : ∀ x ∈ e.queue, x ∈ e'.queue
  trace : ∃ xs : List Entry, e'.trace = e.trace ++ xs.map (fun x => (e.now,x)) ∧
    ∀ x ∈ xs, ∀ s, P s → x.mark s = .other

namespace Calm
variable {P : ℕ → Prop}

theorem of_eq (hn : e'.now = e.now) (hs : e'.serials = e.serials) (hr : e'.retries = e.retries)
    (ha : e'.adapters.scheduler = e.adapters.scheduler) (hq : e'.queue = e.queue)
    (ht : e'.trace = e.trace) : Calm P e e' := by
  refine ⟨hn,hs.ge,fun key p _ => by rw [hr],fun key p _ _ => ?_,
    fun x hx => by rwa [hq],[],by simp [ht],by simp⟩
  unfold Engine.dueAt
  rw [ha]

theorem refl (e : Engine A N) : Calm P e e := of_eq rfl rfl rfl rfl rfl rfl

theorem trans (h : Calm P e e') (h' : Calm P e' e'') : Calm P e e'' := by
  obtain ⟨xs,hx,hxs⟩ := h.trace
  obtain ⟨ys,hy,hys⟩ := h'.trace
  refine ⟨h'.now.trans h.now,h.serials.trans h'.serials,
    fun key p hp => (h'.retries key p hp).trans (h.retries key p hp),fun key p hp hl => ?_,
    fun x hx => h'.queue x (h.queue x hx),xs ++ ys,?_,?_⟩
  · exact (h'.dueAt key p hp ((h.retries key p hp).mpr hl)).trans (h.dueAt key p hp hl)
  · rw [hy,hx,h.now]
    simp
  · intro x hm
    exact (List.mem_append.mp hm).elim (hxs x) (hys x)

theorem of_record (e : Engine A N) {x : Entry} (hx : ∀ s, P s → x.mark s = .other) :
    Calm P e (e.record x) :=
  ⟨rfl,le_rfl,fun _ _ _ => .rfl,fun _ _ _ _ => rfl,fun _ h => h,[x],rfl,by simpa using hx⟩

theorem of_notify (e : Engine A N) (n : Notice) : Calm P e (e.notify n) :=
  of_record e fun _ _ => rfl

theorem of_enqueueAll (e : Engine A N) (evs : List Event) (depth : ℕ) :
    Calm P e (e.enqueueAll evs depth) :=
  ⟨rfl,le_rfl,fun _ _ _ => .rfl,fun _ _ _ _ => rfl,fun _ h => List.mem_append_left _ h,
    [],by simp [enqueueAll],by simp⟩

theorem job (h : Calm P e e') (hs : P serial) :
    jobOf policy serial e'.trace = jobOf policy serial e.trace := by
  obtain ⟨xs,hx,hxs⟩ := h.trace
  unfold jobOf
  rw [hx,lifeOf_append,Job.read_append]
  cases Job.read DispatchOutcome.verdict policy.maxAttempts policy.backoff .unborn
    (lifeOf serial e.trace) with
  | none => rfl
  | some j =>
    refine Job.read_of_other fun x hm => ?_
    obtain ⟨y,hy,rfl⟩ := List.mem_map.mp hm
    obtain ⟨z,hz,rfl⟩ := List.mem_map.mp hy
    exact hxs z hz serial hs

theorem noRetry (h : Calm P e e') (hs : P serial) (hn : NoRetry serial e) : NoRetry serial e' := by
  intro key p hp he
  exact hn key p ((h.retries key p (by rwa [he])).mp hp) he

theorem standing (h : Calm P e e') (hs : P serial) (hj : Standing serial e j) :
    Standing serial e' j := by
  cases j with
  | unborn => exact h.noRetry hs hj
  | ready k t =>
    obtain ⟨hlt,key,p,hp,rfl,hk,hd,hu⟩ := hj
    refine ⟨hlt.trans_le h.serials,key,p,(h.retries key p hs).mpr hp,rfl,hk,?_,?_⟩
    · rw [h.dueAt key p hs hp,h.now]
      exact hd.imp_right fun hq => ⟨h.queue _ hq.1,hq.2⟩
    · intro key' p' hp' he
      exact hu key' p' ((h.retries key' p' (by rwa [he])).mp hp') he
  | lost => exact hj
  | accepted | failed => exact ⟨hj.1.trans_le h.serials,h.noRetry hs hj.2⟩

end Calm

theorem Accounted.calm (h : e.Accounted policy) (hc : Calm (fun _ => True) e e')
    (hr : e'.retry = e.retry) : e'.Accounted policy := by
  refine ⟨hr.trans h.retry,fun serial => ?_⟩
  obtain ⟨j,hj,hs⟩ := h.jobs serial
  exact ⟨j,(hc.job trivial).trans hj,hc.standing trivial hs⟩

section Outcome
variable {cmd : Command} {attempt depth : ℕ}

theorem jobOf_record (e : Engine A N) (x : Entry) : jobOf policy serial (e.record x).trace =
    (jobOf policy serial e.trace).bind
      (Job.next DispatchOutcome.verdict policy.maxAttempts policy.backoff e.now (x.mark serial)) := by
  unfold jobOf
  rw [record_trace,lifeOf_append]
  exact Job.read_concat _ _ _

/-- Scheduling a retry adds one under a fresh key, due after the backoff. -/
theorem scheduleRetry_calm (keyed : e.Keyed) (cmd : Command) (attempt serial : ℕ) :
    Calm (fun s => s ≠ serial) e (e.scheduleRetry cmd attempt serial) := by
  have fresh (p) : e.retries.lookup (retryKey (e.retryCounter+1)) ≠ some p := by
    intro hp
    obtain ⟨⟨n,hn,hk⟩,-⟩ := keyed.retrying _ p hp
    have := retryKey_injective hk
    omega
  have hl (key) : (e.scheduleRetry cmd attempt serial).retries.lookup key =
      if key = retryKey (e.retryCounter+1) then some ⟨cmd,attempt+1,serial⟩
      else e.retries.lookup key := HashMap.lookup_insert _ _ _ _
  refine ⟨rfl,le_rfl,fun key p hp => ?_,fun key p hp hk => ?_,fun _ h => h,
    [.notice (.retryScheduled cmd (attempt+1) (e.retry.backoff attempt))],rfl,by simp [Entry.mark]⟩
  · rw [hl]
    split_ifs with hk
    · subst hk
      constructor
      · intro h
        cases h
        exact absurd rfl hp
      · intro h
        exact absurd h (fresh p)
    · rfl
  · refine (SchedulerAdapter.lookup_scheduleTimer _ _ _ _ _).trans (if_neg ?_)
    rintro rfl
    exact fresh p hk

theorem giveUp_calm (e : Engine A N) (cmd : Command) (reason : String)
    (attempts serial depth : ℕ) :
    Calm (fun s => s ≠ serial) e (e.giveUp cmd reason attempts serial depth) := by
  have hg : Calm (fun s => s ≠ serial) (e.notify (.commandFailed cmd reason attempts))
      ((e.notify (.commandFailed cmd reason attempts)).record (.gaveUp serial)) := by
    refine .of_record _ fun s hs => ?_
    unfold Entry.mark
    exact if_neg (Ne.symm hs)
  exact ((Calm.of_notify e _).trans hg).trans (.of_enqueueAll _ [_] _)

theorem handleOutcome_calm (keyed : e.Keyed) (outcome : DispatchOutcome) (cmd : Command)
    (attempt serial depth : ℕ) :
    Calm (fun s => s ≠ serial) e (e.handleOutcome outcome cmd attempt serial depth) := by
  cases outcome with
  | ok evs => exact .of_enqueueAll e evs _
  | transient reason =>
    simp only [handleOutcome]
    have hn := Calm.of_notify (P := fun s => s ≠ serial) e (.dispatchFailed cmd reason true attempt)
    split_ifs
    · exact hn.trans (scheduleRetry_calm (keyed.notify _) cmd attempt serial)
    · exact hn.trans (giveUp_calm _ cmd reason attempt serial depth)
  | permanent reason => exact (Calm.of_notify e _).trans (giveUp_calm _ cmd reason attempt serial depth)

/-- Giving up what cannot be attempted again. -/
theorem giveUp_settles (issued : serial < e.serials) (alone : NoRetry serial e)
    (hj : jobOf policy serial e.trace = some j) (lost : j = .lost ∨ ∃ k t, j = .ready k t)
    (cmd : Command) (reason : String) (attempts depth : ℕ) :
    ∃ j', jobOf policy serial (e.giveUp cmd reason attempts serial depth).trace = some j' ∧
      Standing serial (e.giveUp cmd reason attempts serial depth) j' := by
  refine ⟨.failed,?_,issued,alone⟩
  have ht : (e.giveUp cmd reason attempts serial depth).trace =
      ((e.notify (.commandFailed cmd reason attempts)).record (.gaveUp serial)).trace := rfl
  have hm : (Entry.gaveUp serial).mark serial = .failed := if_pos rfl
  rw [ht,jobOf_record,(Calm.of_notify (P := fun _ => True) e _).job trivial,hj,hm]
  rcases lost with rfl | ⟨k,t,rfl⟩ <;> rfl

/-- Scheduling the next attempt. -/
theorem scheduleRetry_settles (issued : serial < e.serials) (alone : NoRetry serial e)
    (hr : e.retry = policy)
    (hj : jobOf policy serial e.trace = some (.ready (attempt+1) (e.now+policy.backoff attempt)))
    (nowrap : (e.scheduleRetry cmd attempt serial).overflowed = false) :
    ∃ j', jobOf policy serial (e.scheduleRetry cmd attempt serial).trace = some j' ∧
      Standing serial (e.scheduleRetry cmd attempt serial) j' := by
  have hl (key) : (e.scheduleRetry cmd attempt serial).retries.lookup key =
      if key = retryKey (e.retryCounter+1) then some ⟨cmd,attempt+1,serial⟩
      else e.retries.lookup key := HashMap.lookup_insert _ _ _ _
  have hlt : e.now+e.retry.backoff attempt < 2^64 := by
    have ho : (e.overflowed || overflows e.now (.scheduleTimer (retryKey (e.retryCounter+1))
      (e.retry.backoff attempt))) = false := nowrap
    simpa [overflows] using (Bool.or_eq_false_iff.mp ho).2
  refine ⟨.ready (attempt+1) (e.now+policy.backoff attempt),?_,issued,
    retryKey (e.retryCounter+1),⟨cmd,attempt+1,serial⟩,?_,rfl,rfl,.inl ?_,?_⟩
  · exact ((Calm.of_notify (P := fun _ => True) e
      (.retryScheduled cmd (attempt+1) (e.retry.backoff attempt))).job trivial).trans hj
  · rw [hl,if_pos rfl]
  · apply (SchedulerAdapter.lookup_scheduleTimer _ _ _ _ _).trans
    rw [if_pos rfl,← hr]
    exact congrArg some (addMillis_of_lt hlt)
  · intro key p hp hs
    rw [hl] at hp
    split_ifs at hp with hk
    · exact hk
    · exact absurd hs (alone key p hp)

/-- An attempt in its turn, and what comes of it. -/
theorem Routed.settles [Adapter A] {t : Millis} (h : Routed cmd attempt serial depth e e')
    (issued : serial < e.serials) (alone : NoRetry serial e) (hr : e.retry = policy)
    (hj : jobOf policy serial e.trace = some (.ready attempt t)) (turn : t ≤ e.now)
    (nowrap : e'.overflowed = false) :
    ∃ j', jobOf policy serial e'.trace = some j' ∧ Standing serial e' j' := by
  cases h with
  | unbound hb =>
    have hn := Calm.of_notify (P := fun _ => True) e
      (.dispatchFailed cmd "no adapter bound for target device" false attempt)
    exact giveUp_settles (e := e.notify _) issued alone ((hn.job trivial).trans hj)
      (.inr ⟨_,_,rfl⟩) _ _ _ _
  | bound idx outcome adapters hb ho =>
    let e₁ : Engine A N :=
      (e.handOver idx cmd adapters).record (.handed idx cmd attempt serial outcome)
    have hm : (Entry.handed idx cmd attempt serial outcome).mark serial = .tried attempt outcome :=
      if_pos rfl
    have hj₁ : jobOf policy serial e₁.trace = Job.next DispatchOutcome.verdict policy.maxAttempts
        policy.backoff e.now (.tried attempt outcome) (.ready attempt t) := by
      have he : jobOf policy serial (e.handOver idx cmd adapters).trace =
        some (.ready attempt t) := hj
      rw [jobOf_record,hm,he]
      rfl
    rw [Job.next,if_pos ⟨rfl,turn⟩] at hj₁
    cases outcome with
    | ok evs => exact ⟨.accepted,hj₁,issued,alone⟩
    | permanent reason =>
      have hn := Calm.of_notify (P := fun _ => True) e₁ (.dispatchFailed cmd reason false attempt)
      exact giveUp_settles (e := e₁.notify _) issued alone ((hn.job trivial).trans hj₁) (.inl rfl)
        _ _ _ _
    | transient reason =>
      have hn := Calm.of_notify (P := fun _ => True) e₁ (.dispatchFailed cmd reason true attempt)
      have hj₂ := (hn.job trivial).trans hj₁
      change (handleOutcome e₁ (.transient reason) cmd attempt serial depth).overflowed = false at nowrap
      change ∃ j', jobOf policy serial
        (handleOutcome e₁ (.transient reason) cmd attempt serial depth).trace = some j' ∧
          Standing serial (handleOutcome e₁ (.transient reason) cmd attempt serial depth) j'
      simp only [handleOutcome] at nowrap ⊢
      have hmax : (e₁.notify (.dispatchFailed cmd reason true attempt)).retry.maxAttempts =
          policy.maxAttempts := congrArg RetryPolicy.maxAttempts hr
      rw [hmax] at nowrap ⊢
      by_cases hlt : attempt < policy.maxAttempts
      · rw [if_pos hlt] at nowrap ⊢
        refine scheduleRetry_settles issued alone hr ?_ nowrap
        rw [hj₂]
        simp [DispatchOutcome.verdict,hlt]
        rfl
      · rw [if_neg hlt]
        refine giveUp_settles (e := e₁.notify _) issued alone hj₂ (.inl ?_) _ _ _ _
        simp [hlt]

/-- An attempt at one command leaves all others alone. -/
theorem Routed.calm [Adapter A] (keyed : e.Keyed) (target : cmd.targetDevice.isSome)
    (h : Routed cmd attempt serial depth e e') : Calm (fun s => s ≠ serial) e e' := by
  cases h with
  | unbound hb => exact handleOutcome_calm keyed _ cmd attempt serial depth
  | bound idx outcome adapters hb ho =>
    have ha : Calm (fun s => s ≠ serial) e (e.handOver idx cmd adapters) :=
      .of_eq rfl rfl rfl (scheduler_of_dispatch target ho) rfl rfl
    have hh : Calm (fun s => s ≠ serial) (e.handOver idx cmd adapters)
        ((e.handOver idx cmd adapters).record (.handed idx cmd attempt serial outcome)) := by
      refine .of_record _ fun s hs => ?_
      unfold Entry.mark
      exact if_neg (Ne.symm hs)
    have keyed' : ((e.handOver idx cmd adapters).record
        (.handed idx cmd attempt serial outcome)).Keyed := keyed.of_eq rfl rfl rfl rfl
    exact (ha.trans hh).trans (handleOutcome_calm keyed' outcome cmd attempt serial depth)

end Outcome

section Moves
variable [Adapter A] {cmd : Command} {depth : ℕ}

/-- A fresh command: it is issued, handed over for the first time, and settled. -/
theorem Accounted.fresh (h : e.Accounted policy) (keyed : e.Keyed)
    (target : cmd.targetDevice.isSome) (hd : dispatchDevice cmd 1 none depth e = .ok e')
    (nowrap : e'.overflowed = false) : e'.Accounted policy := by
  have routed : Routed cmd 1 e.serials depth
      (({ e with serials := e.serials+1 } : Engine A N).record (.issued e.serials cmd)) e' :=
    dispatchDevice_routed hd
  generalize he₁ : ({ e with serials := e.serials+1 } : Engine A N).record
    (.issued e.serials cmd) = e₁ at routed
  have calm : Calm (fun s => s ≠ e.serials) e e₁ := by
    rw [← he₁]
    refine ⟨rfl,Nat.le_succ _,fun _ _ _ => .rfl,fun _ _ _ _ => rfl,fun _ hx => hx,
      [.issued e.serials cmd],rfl,fun x hx s hs => ?_⟩
    rw [List.mem_singleton.mp hx]
    unfold Entry.mark
    exact if_neg (Ne.symm hs)
  have keyed₁ : e₁.Keyed := by
    rw [← he₁]
    exact keyed.of_eq rfl rfl rfl rfl
  refine ⟨(dispatchDevice_dispatched hd).retry.trans h.retry,fun serial => ?_⟩
  obtain ⟨j,hj,hs⟩ := h.jobs serial
  by_cases hserial : serial = e.serials
  · subst hserial
    have hn : NoRetry e.serials e ∧ j = .unborn := by
      cases j with
      | unborn => exact ⟨hs,rfl⟩
      | lost => exact hs.elim
      | _ => exact absurd hs.1 (lt_irrefl _)
    obtain ⟨alone,rfl⟩ := hn
    have hj₁ : jobOf policy e.serials e₁.trace = some (.ready 1 e.now) := by
      have hm : (Entry.issued e.serials cmd).mark e.serials = .issued := if_pos rfl
      have he : jobOf policy e.serials ({ e with serials := e.serials+1 } : Engine A N).trace =
        some .unborn := hj
      rw [← he₁,jobOf_record,hm,he]
      rfl
    refine routed.settles ?_ ?_ ?_ hj₁ ?_ nowrap
    · rw [← he₁]
      exact Nat.lt_succ_self _
    · rw [← he₁]
      exact alone
    · rw [← he₁]
      exact h.retry
    · rw [← he₁]
      exact le_rfl
  · have hc := calm.trans (routed.calm keyed₁ target)
    exact ⟨j,(hc.job hserial).trans hj,hc.standing hserial hs⟩

variable [NorthboundAdapter N]

/-- Whatever is no dispatch of a device command leaves all commands alone. -/
theorem Move.calm (keyed : e.Keyed) (hm : Move (Command.Avoids IsRetry) (fun _ => False) e e') :
    Calm (fun _ => True) e e' ∧ e'.retry = e.retry ∨
      ∃ cmd depth, cmd.targetDevice.isSome ∧ dispatchDevice cmd 1 none depth e = .ok e' := by
  have retried {key : TimerKey} {p : PendingRetry} (hp : e.retries.lookup key = some p) :
      IsRetry key ∧ ∀ rule, e.pendingFor.lookup rule ≠ some ⟨key⟩ := by
    obtain ⟨⟨n,-,rfl⟩,-⟩ := keyed.retrying key p hp
    refine ⟨⟨n+1,rfl⟩,fun rule hw => ?_⟩
    obtain ⟨m,-,hk⟩ := keyed.waiting rule _ hw
    exact forKey_ne_retryKey _ _ hk.symm
  cases hm with
  | notice n => exact .inl ⟨.of_notify e n,rfl⟩
  | firing rule => exact .inl ⟨.of_record e fun _ _ => rfl,rfl⟩
  | elapse rule => exact .inl ⟨.of_eq rfl rfl rfl rfl rfl rfl,rfl⟩
  | fold ev =>
    cases ev with
    | stateReported device v =>
      exact .inl ⟨(Calm.of_notify e (.stateFolded device v)).trans (.of_eq rfl rfl rfl rfl rfl rfl),rfl⟩
    | _ => exact .inl ⟨.refl e,rfl⟩
  | refan device kind =>
    unfold Engine.refan
    split
    · exact .inl ⟨(Calm.of_notify e _).trans (.of_eq rfl rfl rfl rfl rfl rfl),rfl⟩
    · exact .inl ⟨.refl e,rfl⟩
  | cancel rule =>
    have hd := e.cancelForTimer_dueAt rule
    have hsame : (e.cancelForTimer rule).retries = e.retries ∧
        (e.cancelForTimer rule).serials = e.serials ∧ (e.cancelForTimer rule).now = e.now ∧
        (e.cancelForTimer rule).queue = e.queue ∧ (e.cancelForTimer rule).trace = e.trace ∧
        (e.cancelForTimer rule).retry = e.retry := by
      unfold cancelForTimer
      cases e.pendingFor.lookup rule <;> exact ⟨rfl,rfl,rfl,rfl,rfl,rfl⟩
    obtain ⟨h₁,h₂,h₃,h₄,h₅,h₆⟩ := hsame
    refine .inl ⟨⟨h₃,h₂.ge,fun _ _ _ => by rw [h₁],fun key p _ hp => ?_,
      fun x hx => by rwa [h₄],[],by simp [h₅],by simp⟩,h₆⟩
    rw [hd,if_neg ((retried hp).2 rule)]
  | arm rule after =>
    have hd := e.armForTimer_dueAt rule after
    have hsame : (e.armForTimer rule after).retries = e.retries ∧
        (e.armForTimer rule after).serials = e.serials ∧
        (e.armForTimer rule after).now = e.now ∧ (e.armForTimer rule after).queue = e.queue ∧
        (e.armForTimer rule after).trace = e.trace ∧
        (e.armForTimer rule after).retry = e.retry := by
      unfold armForTimer
      cases e.pendingFor.lookup rule <;> exact ⟨rfl,rfl,rfl,rfl,rfl,rfl⟩
    obtain ⟨h₁,h₂,h₃,h₄,h₅,h₆⟩ := hsame
    refine .inl ⟨⟨h₃,h₂.ge,fun _ _ _ => by rw [h₁],fun key p _ hp => ?_,
      fun x hx => by rwa [h₄],[],by simp [h₅],by simp⟩,h₆⟩
    obtain ⟨⟨n,rfl⟩,hw⟩ := retried hp
    rw [hd,if_neg (forKey_ne_retryKey _ n).symm,if_neg (hw rule)]
  | timer cmd _ avoids =>
    refine .inl ⟨⟨rfl,le_rfl,fun _ _ _ => .rfl,fun key p _ hp => ?_,fun _ hx => hx,
      [.timed cmd e.timers (e.schedule cmd).timers],rfl,by simp [Entry.mark]⟩,rfl⟩
    exact e.schedule_dueAt avoids (retried hp).1
  | device cmd depth target _ hd => exact .inr ⟨cmd,depth,target,hd⟩
  | retry fuel key p may => exact may.elim

theorem Move.overflowed {user : Command → Prop} {again : TimerKey → Prop}
    (hm : Move user again e e') (h : e'.overflowed = false) : e.overflowed = false := by
  cases hm with
  | notice | firing | elapse => exact h
  | fold ev => cases ev <;> exact h
  | refan device kind =>
    unfold Engine.refan at h
    split at h <;> exact h
  | cancel rule =>
    have hi : Internal (fun _ => True) 0 e (e.cancelForTimer rule) := .of_cancelForTimer e rule
    exact hi.overflowed h
  | arm rule after =>
    have hi : Internal (fun _ => True) 0 e (e.armForTimer rule after) := .of_armForTimer e rule after
    exact hi.overflowed h
  | timer cmd => exact (Bool.or_eq_false_iff.mp h).1
  | device cmd depth target _ hd => exact (dispatchDevice_dispatched hd).overflowed h
  | retry fuel key p _ _ _ hd => exact (dispatchAt_frame hd).overflowed h

theorem Accounted.moves (h : e.Accounted policy) (keyed : e.Keyed)
    (hm : Moves (Command.Avoids IsRetry) (fun _ => False) e e') (nowrap : e'.overflowed = false) :
    e'.Accounted policy := by
  have inv : e'.Accounted policy ∧ e'.Keyed := by
    induction hm with
    | refl => exact ⟨h,keyed⟩
    | tail _ hm ih =>
      obtain ⟨ha,hk⟩ := ih (hm.overflowed nowrap)
      refine ⟨?_,hk.move hm⟩
      rcases hm.calm hk with ⟨hc,hr⟩ | ⟨cmd,depth,target,hd⟩
      · exact ha.calm hc hr
      · exact ha.fresh hk target hd nowrap
  exact inv.1

end Moves

section Steps
variable {ev : Event} {depth : ℕ} {rest : List (Event × ℕ)}

/-- Taking an event off the queue that is not the timer of the command's retry. -/
theorem Standing.pop (h : Standing serial e j) (next : e.queue = (ev,depth) :: rest)
    (foreign : ∀ key p, e.retries.lookup key = some p → p.serial = serial → ev ≠ .timerElapsed key) :
    Standing serial ({ e with queue := rest } : Engine A N) j := by
  cases j with
  | ready k t =>
    obtain ⟨hlt,key,p,hp,hs,hk,hd,hu⟩ := h
    refine ⟨hlt,key,p,hp,hs,hk,hd.imp_right fun hq => ⟨?_,hq.2⟩,hu⟩
    have hm := hq.1
    rw [next] at hm
    rcases List.mem_cons.mp hm with hm | hm
    · exact absurd (Prod.mk.inj hm).1.symm (foreign key p hp hs)
    · exact hm
  | _ => exact h

variable [Adapter A]

/-- The timer of a retry elapsed: the command is attempted again, in its turn. -/
theorem Accounted.resume {fuel : ℕ} {key : TimerKey} {p : PendingRetry} (h : e.Accounted policy)
    (keyed : e.Keyed) (timely : e.Timely IsRetry) (pending : e.retries.lookup key = some p)
    (next : e.queue = (.timerElapsed key,depth) :: rest)
    (hd : dispatchAt fuel p.command p.attempt (some p.serial) 0
      { ({ e with queue := rest } : Engine A N).received (.timerElapsed key) depth with
        retries := e.retries.erase key } = .ok e')
    (nowrap : e'.overflowed = false) : e'.Accounted policy := by
  let e₁ : Engine A N := ({ e with queue := rest } : Engine A N).received (.timerElapsed key) depth
  have keyed₁ : e₁.Keyed := keyed.of_eq rfl rfl rfl rfl
  obtain ⟨cmd,target,-,hd'⟩ := retry_dispatched keyed₁ pending hd
  have hretry : e'.retry = e.retry := (dispatchAt_frame hd).retry
  let e₂ : Engine A N :=
    ({ e₁ with retries := e.retries.erase key }).notify (.commandDispatched cmd 0)
  have routed : Routed cmd p.attempt p.serial 0 e₂ e' := dispatchDevice_routed hd'
  have keyed₂ : e₂.Keyed := (keyed₁.eraseRetry key).of_eq rfl rfl rfl rfl
  have calm : Calm (fun s => s ≠ p.serial) ({ e with queue := rest } : Engine A N) e₂ := by
    have he : Calm (fun s => s ≠ p.serial) e₁ { e₁ with retries := e.retries.erase key } := by
      refine ⟨rfl,le_rfl,fun k q hq => ?_,fun _ _ _ _ => rfl,fun _ hx => hx,
        [],by simp,by simp⟩
      change (e.retries.erase key).lookup k = some q ↔ e.retries.lookup k = some q
      rw [HashMap.lookup_erase]
      split_ifs with hk
      · rw [hk,pending]
        constructor
        · intro hn
          cases hn
        · intro hs
          cases hs
          exact absurd rfl hq
      · rfl
    exact ((Calm.of_notify _ _).trans he).trans (.of_notify _ _)
  refine ⟨hretry.trans h.retry,fun serial => ?_⟩
  obtain ⟨j,hj,hs⟩ := h.jobs serial
  by_cases hserial : serial = p.serial
  · subst hserial
    have hm : (.timerElapsed key,depth) ∈ e.queue := by simp [next]
    obtain ⟨⟨n,-,hkey⟩,-⟩ := keyed.retrying key p pending
    have hnone := (timely.elapsing key depth ⟨n+1,hkey⟩ hm).2
    -- a command with a pending retry is ready for the attempt the retry says
    cases j with
    | ready k t =>
      obtain ⟨hlt,key',p',hp',-,hk,hdue,hu⟩ := hs
      obtain rfl := hu key p pending rfl
      cases pending.symm.trans hp'
      subst hk
      have turn : t ≤ e.now := by
        rcases hdue with hdue | hdue
        · rw [hnone] at hdue
          cases hdue
        · exact hdue.2
      have alone : NoRetry p.serial e₂ := by
        intro k q hq he
        have hq' : (e.retries.erase key).lookup k = some q := hq
        rw [HashMap.lookup_erase] at hq'
        split_ifs at hq' with hk
        exact hk (hu k q hq' he)
      have hj₂ : jobOf policy p.serial e₂.trace = some (.ready p.attempt t) := by
        have h₁ : jobOf policy p.serial e₁.trace = jobOf policy p.serial e.trace :=
          (Calm.of_notify (P := fun _ => True) ({ e with queue := rest } : Engine A N)
            (.eventReceived (.timerElapsed key) depth)).job trivial
        have h₂ : jobOf policy p.serial e₂.trace = jobOf policy p.serial e₁.trace :=
          (Calm.of_notify (P := fun _ => True)
            ({ e₁ with retries := e.retries.erase key } : Engine A N)
            (.commandDispatched cmd 0)).job trivial
        exact h₂.trans (h₁.trans hj)
      exact routed.settles hlt alone h.retry hj₂ turn nowrap
    | unborn => exact absurd rfl (hs key p pending)
    | accepted | failed => exact absurd rfl (hs.2 key p pending)
    | lost => exact hs.elim
  · have hc := calm.trans (routed.calm keyed₂ target)
    have foreign (k) (q) (hq : e.retries.lookup k = some q) (he : q.serial = serial) :
        Event.timerElapsed key ≠ .timerElapsed k := by
      intro hk
      cases hk
      cases pending.symm.trans hq
      exact hserial he.symm
    exact ⟨j,(hc.job hserial).trans hj,hc.standing hserial (hs.pop next foreign)⟩

variable [NorthboundAdapter N] {π : HashOrder}

theorem Accounted.process {fuel : ℕ} (h : e.Accounted policy) (keyed : e.Keyed)
    (timely : e.Timely IsRetry) (avoid : e.CommandsIn (Command.Avoids IsRetry))
    (next : e.queue = (ev,depth) :: rest)
    (hp : { e with queue := rest }.process π fuel ev depth = .ok e')
    (nowrap : e'.overflowed = false) : e'.Accounted policy := by
  by_cases hretry : ∃ key, ev = .timerElapsed key ∧ (e.retries.lookup key).isSome
  · obtain ⟨key,rfl,hsome⟩ := hretry
    obtain ⟨p,pending⟩ := Option.isSome_iff_exists.mp hsome
    have hm : (.timerElapsed key,depth) ∈ e.queue := by simp [next]
    have hdepth := timely.shallow key depth hm
    subst hdepth
    have pending' : ({ e with queue := rest } : Engine A N).retries.lookup key = some p := pending
    cases process_processed hp with
    | dropped _ deep => exact absurd deep (Nat.not_lt_zero _)
    | retried key q _ le pq hd =>
      cases pending.symm.trans pq
      exact h.resume keyed timely pending next hd nowrap
    | elapsed key _ le fresh =>
      rw [pending'] at fresh
      cases fresh
    | reacted _ _ le ordinary =>
      simp [intercepts,pending'] at ordinary
  · have keyed₁ : ({ e with queue := rest } : Engine A N).Keyed := keyed.of_eq rfl rfl rfl rfl
    have h₁ : ({ e with queue := rest } : Engine A N).Accounted policy := by
      refine ⟨h.retry,fun serial => ?_⟩
      obtain ⟨j,hj,hs⟩ := h.jobs serial
      refine ⟨j,hj,hs.pop next fun key p hl _ he => hretry ⟨key,he,by simp [hl]⟩⟩
    exact h₁.moves keyed₁ (process_moves (fun _ => .of_not_timer) avoid.rules avoid.scenes
      (fun key he hl => hretry ⟨key,he,hl⟩) hp) nowrap

/-- A tick puts the timers of the retries that are due on the queue. -/
theorem Accounted.tick {host : Host N} (only : SchedulerOnly A host) (h : e.Accounted policy)
    (idle : e.queue = []) : (e.tickAdapters π).Accounted policy := by
  refine ⟨h.retry,fun serial => ?_⟩
  obtain ⟨j,hj,hs⟩ := h.jobs serial
  have hc : Calm (fun _ => True) e (e.record .ticked) := .of_record e fun _ _ => rfl
  refine ⟨j,(hc.job trivial).trans hj,?_⟩
  cases j with
  | ready k t =>
    obtain ⟨hlt,key,p,hp,hserial,hk,hd,hu⟩ := hs
    refine ⟨hlt,key,p,hp,hserial,hk,?_,hu⟩
    rcases hd with hd | ⟨hm,-⟩
    · by_cases hle : t ≤ e.now
      · exact .inr ⟨(mem_tickAdapters_queue π only idle).mpr ⟨rfl,t,hd,hle⟩,hle⟩
      · refine .inl ?_
        rw [tickAdapters_dueAt,if_neg]
        · exact hd
        · rintro ⟨t',ht,hle'⟩
          cases hd.symm.trans ht
          exact hle hle'
    · rw [idle] at hm
      cases hm
  | _ => exact hs

omit [Adapter A] [NorthboundAdapter N] in
/-- Between two calls, time may pass and events may be queued. -/
theorem Accounted.of_idle (h : e.Accounted policy) (idle : e.queue = [])
    (hr : e'.retry = e.retry) (hs : e'.serials = e.serials) (hp : e'.retries = e.retries)
    (ha : e'.adapters = e.adapters) (ht : e'.trace = e.trace) : e'.Accounted policy := by
  refine ⟨hr.trans h.retry,fun serial => ?_⟩
  obtain ⟨j,hj,hst⟩ := h.jobs serial
  have hn (hn : NoRetry serial e) : NoRetry serial e' := by
    unfold NoRetry
    rwa [hp]
  refine ⟨j,by rwa [ht],?_⟩
  cases j with
  | unborn => exact hn hst
  | ready k t =>
    obtain ⟨hlt,key,p,hl,hserial,hk,hd,hu⟩ := hst
    have hd' : e.dueAt key = some t := by
      rcases hd with hd | ⟨hm,-⟩
      · exact hd
      · rw [idle] at hm
        cases hm
    unfold dueAt at hd'
    rw [← ha] at hd'
    exact ⟨by rwa [hs],key,p,by rwa [hp],hserial,hk,.inl hd',by rwa [hp]⟩
  | lost => exact hst
  | accepted | failed => exact ⟨by rw [hs]; exact hst.1,hn hst.2⟩

end Steps

section Addresses

/-- Commands go to the adapter of the device they were issued for, and so will those to be attempted
again. -/
structure Addressed (e : Engine A N) : Prop where
  pending : ∀ key p, e.retries.lookup key = some p →
    ∃ t cmd, (t,.issued p.serial cmd) ∈ e.trace ∧ cmd.targetDevice = p.command.targetDevice
  handed : ∀ t idx cmd attempt serial outcome,
    (t,.handed idx cmd attempt serial outcome) ∈ e.trace →
      cmd.targetDevice.bind e.deviceToAdapter.lookup = some idx ∧
        ∃ t' cmd', (t',.issued serial cmd') ∈ e.trace ∧ cmd'.targetDevice = cmd.targetDevice

variable {cmd : Command} {attempt depth : ℕ}

/-- Whatever hands over no command and schedules no retry. -/
theorem Addressed.of_le (h : e.Addressed) (hd : e'.deviceToAdapter = e.deviceToAdapter)
    (hr : ∀ key p, e'.retries.lookup key = some p → e.retries.lookup key = some p)
    (xs : List Entry) (ht : e'.trace = e.trace ++ xs.map fun x => (e.now,x))
    (hxs : ∀ idx cmd attempt serial outcome, .handed idx cmd attempt serial outcome ∉ xs) :
    e'.Addressed := by
  have hle (x) (hx : x ∈ e.trace) : x ∈ e'.trace := by
    rw [ht]
    exact List.mem_append_left _ hx
  constructor
  · intro key p hp
    obtain ⟨t,cmd,hm,hc⟩ := h.pending key p (hr key p hp)
    exact ⟨t,cmd,hle _ hm,hc⟩
  · intro t idx cmd attempt serial outcome hm
    rw [ht] at hm
    rcases List.mem_append.mp hm with hm | hm
    · obtain ⟨hb,t',cmd',hm',hc⟩ := h.handed t idx cmd attempt serial outcome hm
      exact ⟨by rwa [hd],t',cmd',hle _ hm',hc⟩
    · obtain ⟨x,hx,he⟩ := List.mem_map.mp hm
      cases he
      exact absurd hx (hxs idx cmd attempt serial outcome)

theorem Addressed.record (h : e.Addressed) {x : Entry}
    (hx : ∀ idx cmd attempt serial outcome, x ≠ .handed idx cmd attempt serial outcome) :
    (e.record x).Addressed := by
  refine h.of_le rfl (fun _ _ => id) [x] rfl fun idx cmd attempt serial outcome hm => ?_
  exact hx _ _ _ _ _ (List.mem_singleton.mp hm).symm

theorem Addressed.notify (h : e.Addressed) (n : Notice) : (e.notify n).Addressed :=
  h.record nofun

theorem Addressed.giveUp (h : e.Addressed) (cmd : Command) (reason : String)
    (attempts serial depth : ℕ) : (e.giveUp cmd reason attempts serial depth).Addressed :=
  ((h.notify (.commandFailed cmd reason attempts)).record (x := .gaveUp serial) nofun).of_le rfl
    (fun _ _ => id) [] (List.append_nil _).symm (by simp)

theorem Addressed.scheduleRetry (h : e.Addressed)
    (issued : ∃ t cmd', (t,.issued serial cmd') ∈ e.trace ∧ cmd'.targetDevice = cmd.targetDevice) :
    (e.scheduleRetry cmd attempt serial).Addressed := by
  have hn := h.notify (.retryScheduled cmd (attempt+1) (e.retry.backoff attempt))
  refine ⟨fun key p hp => ?_,hn.handed⟩
  have hp' : (e.retries.insert (retryKey (e.retryCounter+1)) ⟨cmd,attempt+1,serial⟩).lookup key =
    some p := hp
  rw [HashMap.lookup_insert] at hp'
  split_ifs at hp'
  · cases hp'
    obtain ⟨t,cmd',hm,hc⟩ := issued
    exact ⟨t,cmd',List.mem_append_left _ hm,hc⟩
  · exact hn.pending key p hp'

theorem Addressed.handleOutcome (h : e.Addressed)
    (issued : ∃ t cmd', (t,.issued serial cmd') ∈ e.trace ∧ cmd'.targetDevice = cmd.targetDevice)
    (outcome : DispatchOutcome) : (e.handleOutcome outcome cmd attempt serial depth).Addressed := by
  cases outcome with
  | ok evs => exact h.of_le rfl (fun _ _ => id) [] (List.append_nil _).symm (by simp)
  | transient reason =>
    have hn := h.notify (.dispatchFailed cmd reason true attempt)
    simp only [Engine.handleOutcome]
    split_ifs
    · obtain ⟨t,cmd',hm,hc⟩ := issued
      exact hn.scheduleRetry ⟨t,cmd',List.mem_append_left _ hm,hc⟩
    · exact hn.giveUp cmd reason attempt serial depth
  | permanent reason =>
    exact (h.notify (.dispatchFailed cmd reason false attempt)).giveUp cmd reason attempt serial depth

theorem Addressed.routed [Adapter A] (h : e.Addressed)
    (issued : ∃ t cmd', (t,.issued serial cmd') ∈ e.trace ∧ cmd'.targetDevice = cmd.targetDevice)
    (hr : Routed cmd attempt serial depth e e') : e'.Addressed := by
  cases hr with
  | unbound hb => exact h.handleOutcome issued _
  | bound idx outcome adapters hb ho =>
    obtain ⟨t,cmd',hm,hc⟩ := issued
    refine Addressed.handleOutcome ?_ ⟨t,cmd',List.mem_append_left _ hm,hc⟩ outcome
    refine ⟨fun key p hp => ?_,fun t₁ idx₁ cmd₁ k s o hx => ?_⟩
    · obtain ⟨t',cmd',hm',hc'⟩ := h.pending key p hp
      exact ⟨t',cmd',List.mem_append_left _ hm',hc'⟩
    · rcases List.mem_append.mp hx with hx | hx
      · obtain ⟨hb',t',cmd',hm',hc'⟩ := h.handed t₁ idx₁ cmd₁ k s o hx
        exact ⟨hb',t',cmd',List.mem_append_left _ hm',hc'⟩
      · cases List.mem_singleton.mp hx
        exact ⟨hb,t,cmd',List.mem_append_left _ hm,hc⟩

variable [Adapter A] [NorthboundAdapter N]

theorem Move.addressed {user : Command → Prop} {again : TimerKey → Prop} (keyed : e.Keyed)
    (hm : Move user again e e') (h : e.Addressed) : e'.Addressed := by
  cases hm with
  | notice n => exact h.notify n
  | firing rule => exact h.record nofun
  | elapse rule => exact h.of_le rfl (fun _ _ => id) [] (List.append_nil _).symm (by simp)
  | fold ev =>
    cases ev with
    | stateReported device v =>
      exact (h.notify (.stateFolded device v)).of_le rfl (fun _ _ => id) []
        (List.append_nil _).symm (by simp)
    | _ => exact h
  | refan device kind =>
    unfold Engine.refan
    split
    · exact (h.notify _).of_le rfl (fun _ _ => id) [] (List.append_nil _).symm (by simp)
    · exact h
  | cancel rule =>
    unfold cancelForTimer
    cases e.pendingFor.lookup rule with
    | none => exact h
    | some p => exact h.of_le rfl (fun _ _ => id) [] (List.append_nil _).symm (by simp)
  | arm rule after =>
    unfold armForTimer
    cases e.pendingFor.lookup rule <;>
      exact h.of_le rfl (fun _ _ => id) [] (List.append_nil _).symm (by simp)
  | timer cmd =>
    exact h.of_le rfl (fun _ _ => id) [.timed cmd e.timers (e.schedule cmd).timers] rfl (by simp)
  | device cmd depth target _ hd =>
    refine Addressed.routed (e := ({ e with serials := e.serials+1 } : Engine A N).record
      (.issued e.serials cmd)) ?_ ⟨e.now,cmd,?_,rfl⟩ (dispatchDevice_routed hd)
    · exact h.of_le rfl (fun _ _ => id) [.issued e.serials cmd] rfl (by simp)
    · exact List.mem_append_right _ (List.mem_singleton.mpr rfl)
  | retry fuel key p may pending _ hd =>
    obtain ⟨cmd,-,hc,hd'⟩ := retry_dispatched keyed pending hd
    obtain ⟨t,cmd',hm,ht⟩ := h.pending key p pending
    have he : ({ e with retries := e.retries.erase key } : Engine A N).Addressed := by
      refine h.of_le rfl (fun k q hq => ?_) [] (List.append_nil _).symm (by simp)
      have hq' : (e.retries.erase key).lookup k = some q := hq
      rw [HashMap.lookup_erase] at hq'
      split_ifs at hq'
      exact hq'
    refine Addressed.routed (he.notify (.commandDispatched cmd 0))
      ⟨t,cmd',List.mem_append_left _ hm,?_⟩ (dispatchDevice_routed hd')
    rw [ht,hc,resolveImplicitStateCommand_targetDevice]

end Addresses
end Engine

section Runs
variable {A N : Type} [Adapter A] [NorthboundAdapter N] {π : HashOrder} {host : Host N}
  {c c' : Config A N} {policy : RetryPolicy}

/-- A step keeps every command where its history says. -/
theorem Step.accounted (only : SchedulerOnly A host) (keyed : c.engine.Keyed)
    (timely : c.engine.Timely Engine.IsRetry)
    (avoid : c.engine.CommandsIn (Command.Avoids Engine.IsRetry)) (step : Step π host c c')
    (nowrap : c'.engine.overflowed = false) (h : c.engine.Accounted policy) :
    c'.engine.Accounted policy := by
  cases step with
  | @process e e' p ev depth rest fuel next hp => exact h.process keyed timely avoid next hp nowrap
  | @start e p idle ready =>
    have hs : (e.record .started).Accounted policy := h.calm (.of_record e fun _ _ => rfl) rfl
    exact hs.tick only idle
  | @advance e p dt idle ready =>
    have ht : (e.elapse dt).Accounted policy := h.of_idle idle rfl rfl rfl rfl rfl
    exact ht.tick only idle
  | synced idle | inject ev may idle | addNorthbound n may idle =>
    exact h.of_idle idle rfl rfl rfl rfl rfl

theorem Step.addressed (keyed : c.engine.Keyed) (step : Step π host c c')
    (h : c.engine.Addressed) : c'.engine.Addressed := by
  cases step with
  | @process e e' p ev depth rest fuel next hp =>
    have hm := Engine.moves_of_process hp
    have inv : e'.Addressed ∧ e'.Keyed := by
      clear hp
      induction hm with
      | refl => exact ⟨h.of_le rfl (fun _ _ => id) [] (List.append_nil _).symm (by simp),
          keyed.of_eq rfl rfl rfl rfl⟩
      | tail _ hm ih => exact ⟨hm.addressed ih.2 ih.1,ih.2.move hm⟩
    exact inv.1
  | @start e p idle ready =>
    have hs : (e.record .started).Addressed := h.record nofun
    exact hs.of_le rfl (fun _ _ => id) [.ticked] rfl (by simp)
  | @advance e p dt idle ready =>
    have ht : (e.elapse dt).Addressed :=
      h.of_le rfl (fun _ _ => id) [] (List.append_nil _).symm (by simp)
    exact ht.of_le rfl (fun _ _ => id) [.ticked] rfl (by simp)
  | _ => exact h.of_le rfl (fun _ _ => id) [] (List.append_nil _).symm (by simp)

omit [Adapter A] [NorthboundAdapter N] in
theorem Engine.Fresh.accounted {e : Engine A N} (h : e.Fresh) : e.Accounted e.retry := by
  refine ⟨rfl,fun serial => ⟨.unborn,by rw [h.trace]; rfl,fun key p hp => ?_⟩⟩
  have hr : e.retries = ∅ := congrArg Timers.retries h.timers
  rw [hr] at hp
  cases hp

omit [Adapter A] [NorthboundAdapter N] in
theorem Engine.Fresh.addressed {e : Engine A N} (h : e.Fresh) : e.Addressed := by
  have hr : e.retries = ∅ := congrArg Timers.retries h.timers
  refine ⟨fun key p hp => ?_,fun t idx cmd k s o hm => ?_⟩
  · rw [hr] at hp
    cases hp
  · rw [h.trace] at hm
    cases hm

theorem Run.accounted {e₀ : Engine A N} {p : Phase} (fresh : e₀.Fresh) (only : SchedulerOnly A host)
    (avoid : e₀.CommandsIn (Command.Avoids Engine.IsRetry)) (run : Run π host ⟨e₀,p⟩ c)
    (nowrap : c.engine.overflowed = false) :
    c.engine.Accounted e₀.retry ∧ c.engine.Addressed := by
  induction run with
  | refl => exact ⟨fresh.accounted,fresh.addressed⟩
  | tail run step ih =>
    obtain ⟨ha,hd⟩ := ih (step.overflowed nowrap)
    have keyed := Run.keyed fresh run
    have timely : Engine.Timely Engine.IsRetry _ := Run.timely fresh only avoid run
    exact ⟨step.accounted only keyed timely
      (avoid.of_wiring (Run.wiring run)) nowrap ha,step.addressed keyed hd⟩

end Runs

/-- The attempts at a command: when it was handed over, for the how-manieth time, and the answer. -/
def attempts (serial : ℕ) (tr : List (Millis × Entry)) : List (Millis × ℕ × DispatchOutcome) :=
  Job.tries (lifeOf serial tr)

/-- How many attempts at a command were answered with `Ok`. -/
def timesAccepted (serial : ℕ) (tr : List (Millis × Entry)) : ℕ :=
  Job.acceptances DispatchOutcome.verdict (lifeOf serial tr)

/-- How many `CommandFailed` events were emitted for a command. -/
def timesGivenUp (serial : ℕ) (tr : List (Millis × Entry)) : ℕ := Job.failures (lifeOf serial tr)

/-- A serial is issued for one command only. -/
theorem issued_unique {tr : List (Millis × Entry)} {serial : ℕ} (once : Job.issues (lifeOf serial tr) ≤ 1)
    {t t' : Millis} {cmd cmd' : Command} (h : (t,.issued serial cmd) ∈ tr)
    (h' : (t',.issued serial cmd') ∈ tr) : cmd = cmd' := by
  obtain ⟨xs,ys,rfl⟩ := List.append_of_mem h
  have hm : (Entry.issued serial cmd).mark serial = .issued := if_pos rfl
  have hm' : (Entry.issued serial cmd').mark serial = .issued := if_pos rfl
  have other (zs : List (Millis × Entry)) (hz : (t',Entry.issued serial cmd') ∈ zs) :
      1 ≤ Job.issues (lifeOf serial zs) := by
    refine List.countP_pos_iff.mpr ⟨(t',(Entry.issued serial cmd').mark serial),?_,by rw [hm']⟩
    exact List.mem_map.mpr ⟨_,hz,rfl⟩
  have hc : Job.issues (lifeOf serial (xs ++ (t,.issued serial cmd) :: ys)) =
      Job.issues (lifeOf serial xs) + (Job.issues (lifeOf serial ys) + 1) := by
    unfold Job.issues lifeOf
    rw [List.map_append,List.map_cons,List.countP_append,List.countP_cons,hm]
    rfl
  rcases List.mem_append.mp h' with h' | h'
  · have := other xs h'
    omega
  · rcases List.mem_cons.mp h' with h' | h'
    · cases h'
      rfl
    · have := other ys h'
      omega

/-- Retrying loses no command and resolves none twice. A device command is handed to the adapter of
its device, attempt by attempt and with the backoff in between, at most as often as the policy says;
whenever the engine is at rest, it has been accepted once, or given up once, or waits for its next
attempt under the one key of its retry. No retry is without its timer. -/
theorem device_commands_are_accounted_for {A N : Type} [Adapter A] [NorthboundAdapter N]
    {π : HashOrder} {host : Host N} {c : Config A N} {e₀ : Engine A N} {p : Phase}
    (fresh : e₀.Fresh) (only : SchedulerOnly A host)
    (avoid : e₀.CommandsIn (Command.Avoids Engine.IsRetry)) (run : Run π host ⟨e₀,p⟩ c)
    (nowrap : c.engine.overflowed = false) :
    (∀ t serial cmd, (t,.issued serial cmd) ∈ c.engine.trace →
      let tries := attempts serial c.engine.trace
      tries.map (fun x => x.2.1) = List.range' 1 tries.length ∧
      tries.length ≤ max 1 e₀.retry.maxAttempts ∧
      (tries.IsChain fun x y => x.1+e₀.retry.backoff x.2.1 ≤ y.1) ∧
      (∀ t idx cmd' k o, (t,.handed idx cmd' k serial o) ∈ c.engine.trace →
        cmd'.targetDevice = cmd.targetDevice ∧
          cmd.targetDevice.bind e₀.deviceToAdapter.lookup = some idx) ∧
      (c.engine.queue = [] →
        timesAccepted serial c.engine.trace = 1 ∧ timesGivenUp serial c.engine.trace = 0 ∧
          c.engine.NoRetry serial ∨
        timesAccepted serial c.engine.trace = 0 ∧ timesGivenUp serial c.engine.trace = 1 ∧
          c.engine.NoRetry serial ∨
        timesAccepted serial c.engine.trace = 0 ∧ timesGivenUp serial c.engine.trace = 0 ∧
          ∃ key, (c.engine.dueAt key).isSome ∧ ∀ key', (∃ p, c.engine.retries.lookup key' = some p ∧
            p.serial = serial) ↔ key' = key)) ∧
    ∀ key, (c.engine.retries.lookup key).isSome →
      (c.engine.dueAt key).isSome ∨ (.timerElapsed key,0) ∈ c.engine.queue := by
  obtain ⟨accounted,addressed⟩ := Run.accounted fresh only avoid run nowrap
  refine ⟨fun t serial cmd issued => ?_,fun key hk => ?_⟩
  · obtain ⟨j,hj,hs⟩ := accounted.jobs serial
    have told := Job.told_of_read hj
    refine ⟨told.numbered,told.bounded,told.spaced,fun t' idx cmd' k o hm => ?_,fun idle => ?_⟩
    · obtain ⟨hb,t'',cmd'',hi,hc⟩ := addressed.handed t' idx cmd' k serial o hm
      obtain rfl := issued_unique told.once issued hi
      rw [(Run.wiring run).deviceToAdapter] at hb
      exact ⟨hc.symm,by rwa [hc]⟩
    · obtain ⟨ha,hf⟩ := told.resolved
      cases j with
      | unborn =>
        -- a command that was issued is not unborn
        have hm : (t,(Entry.issued serial cmd).mark serial) ∈ lifeOf serial c.engine.trace :=
          List.mem_map.mpr ⟨_,issued,rfl⟩
        have ho := told.unborn rfl _ hm
        rw [show (Entry.issued serial cmd).mark serial = .issued from if_pos rfl] at ho
        cases ho
      | ready k t =>
        obtain ⟨-,key,p,hp,hserial,-,hd,hu⟩ := hs
        refine .inr (.inr ⟨ha,hf,key,?_,fun key' => ⟨?_,?_⟩⟩)
        · rcases hd with hd | ⟨hm,-⟩
          · simp [hd]
          · rw [idle] at hm
            cases hm
        · rintro ⟨p',hp',hs'⟩
          exact hu key' p' hp' hs'
        · rintro rfl
          exact ⟨p,hp,hserial⟩
      | lost => exact hs.elim
      | accepted => exact .inl ⟨ha,hf,hs.2⟩
      | failed => exact .inr (.inl ⟨ha,hf,hs.2⟩)
  · obtain ⟨p,hp⟩ := Option.isSome_iff_exists.mp hk
    obtain ⟨j,-,hs⟩ := accounted.jobs p.serial
    cases j with
    | ready k t =>
      obtain ⟨-,key',p',-,-,-,hd,hu⟩ := hs
      obtain rfl := hu key p hp rfl
      exact hd.imp (fun hd => by simp [hd]) And.left
    | unborn => exact absurd rfl (hs key p hp)
    | lost => exact hs.elim
    | accepted | failed => exact absurd rfl (hs.2 key p hp)

/-- An adapter that fails for a while and then echoes the commanded switch. -/
structure FlakyAdapter where
  failRemaining : ℕ
  deriving DecidableEq

namespace FlakyAdapter

def dispatch (a : FlakyAdapter) (cmd : Command) : DispatchOutcome × FlakyAdapter :=
  match a.failRemaining with
  | n+1 => (.transient "network blip",⟨n⟩)
  | 0 =>
    match cmd with
    | .setSwitch device on => (.ok [.stateReported device (.switch on)],a)
    | _ => (.ok [],a)

instance : Adapter FlakyAdapter where
  dispatch a cmd _ := a.dispatch cmd

end FlakyAdapter

theorem schedulerOnly_flaky : SchedulerOnly FlakyAdapter (.timerless : Host MockNorthbound) := by
  refine ⟨fun _ h => h,fun a cmd now evs h ev hev => ?_,fun _ _ _ h => absurd h List.not_mem_nil,
    MockNorthbound.tickTimerless⟩
  obtain ⟨n⟩ := a
  cases n with
  | succ n => cases h
  | zero =>
    cases cmd <;> cases h <;> try exact absurd hev List.not_mem_nil
    rw [List.mem_singleton.mp hev]
    rfl

/-- A light that fails twice, asked for by a request. -/
def flakyEngine : Engine FlakyAdapter MockNorthbound :=
  ((Engine.new.addAdapter ⟨2⟩).1.bindDevice lamp 1).setRetryPolicy ⟨3,1000⟩

theorem flakyEngine_fresh : flakyEngine.Fresh :=
  ((Engine.Fresh.new.addAdapter _).bindDevice _ _).setRetryPolicy _

/-- The light fails at once and after a second; two seconds later it obeys. -/
theorem flaky_lamp_obeys_at_last : ∃ c : Config FlakyAdapter MockNorthbound,
    Run .identity .timerless ⟨flakyEngine,.wired⟩ c ∧ c.engine.queue = [] ∧
      attempts 0 c.engine.trace = [(0,1,.transient "network blip"),
        (1000,2,.transient "network blip"),(3000,3,.ok [.stateReported lamp (.switch true)])] ∧
      (timesAccepted 0 c.engine.trace = 1 ∧ timesGivenUp 0 c.engine.trace = 0) ∧
      (attempts 0 c.engine.trace).length ≤ max 1 3 := by
  obtain ⟨e₁,h₁,e₂,h₂,e₃,h₃,q₁,q₂,q₃,ht,ho,hi,ha⟩ : ∃ e₁, Engine.inject .identity 5
      (.requestedChange lamp (.set (.switch true))) flakyEngine = .ok e₁ ∧
      ∃ e₂, Engine.advance .identity 5 1000 e₁ = .ok e₂ ∧
      ∃ e₃, Engine.advance .identity 5 2000 e₂ = .ok e₃ ∧ e₁.queue = [] ∧ e₂.queue = [] ∧
        e₃.queue = [] ∧ attempts 0 e₃.trace = [(0,1,.transient "network blip"),
          (1000,2,.transient "network blip"),(3000,3,.ok [.stateReported lamp (.switch true)])] ∧
        e₃.overflowed = false ∧ e₃.trace[2]? = some (0,.issued 0 (.setSwitch lamp true)) ∧
        timesAccepted 0 e₃.trace = 1 := by
    exact ⟨_,rfl,_,rfl,_,rfl,rfl,rfl,rfl,rfl,by decide,rfl,rfl⟩
  have may : (Host.timerless : Host MockNorthbound).injects
    (.requestedChange lamp (.set (.switch true))) := rfl
  obtain ⟨r₁,-⟩ := inject_run .timerless .wired may rfl (by decide) h₁
  obtain ⟨r₂,-⟩ := advance_run .timerless .wired q₁ (by decide) h₂
  obtain ⟨r₃,-⟩ := advance_run .timerless .wired q₂ (by decide) h₃
  have run := (r₁.trans r₂).trans r₃
  have avoid : flakyEngine.CommandsIn (Command.Avoids Engine.IsRetry) := by
    refine ⟨fun r hr => absurd hr List.not_mem_nil,fun s cs hl => ?_⟩
    cases hl
  have ok := (device_commands_are_accounted_for flakyEngine_fresh schedulerOnly_flaky avoid run
    ho).1 0 0 _ (List.mem_of_getElem? hi)
  obtain ⟨-,bounded,-,-,resolved⟩ := ok
  refine ⟨_,run,q₃,ht,?_,bounded⟩
  rcases resolved q₃ with ⟨h,h',-⟩ | ⟨h,-⟩ | ⟨h,-⟩
  · exact ⟨h,h'⟩
  · exact absurd (h.symm.trans ha) (by decide)
  · exact absurd (h.symm.trans ha) (by decide)

end Domiform
