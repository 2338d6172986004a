import Domiform.Retries

/-! The order of retries. A retry waits under a numbered key, and timers that are due together elapse
in the order of their keys, which are texts. -/
namespace Domiform
open Library Relation

namespace SchedulerAdapter

/-- Of two timers due at the same time, the one whose key comes first elapses first. -/
theorem due_split (π : HashOrder) (n : ℕ) {s : SchedulerAdapter} {now t : Millis} {k k' : TimerKey}
    (h : s.pending.lookup k = some t) (h' : s.pending.lookup k' = some t) (due : t ≤ now)
    (before : k.name < k'.name) :
    ∃ pre post, (s.due π n now).map Prod.snd = pre ++ k :: post ∧ k' ∉ pre := by
  have hk : (t,k) ∈ s.due π n now := mem_due.mpr ⟨h,due⟩
  have sorted : (s.due π n now).Pairwise dueLe := List.pairwise_insertionSort dueLe _
  obtain ⟨pre,post,hd⟩ := List.append_of_mem hk
  refine ⟨pre.map Prod.snd,post.map Prod.snd,by simp [hd],fun hm => ?_⟩
  obtain ⟨⟨t',key⟩,hpre,rfl⟩ := List.mem_map.mp hm
  have hl : s.pending.lookup key = some t' :=
    (mem_due.mp (hd ▸ List.mem_append_left _ hpre : (t',key) ∈ s.due π n now)).1
  cases h'.symm.trans hl
  rw [hd,List.pairwise_append] at sorted
  rcases sorted.2.2 _ hpre _ List.mem_cons_self with hlt | ⟨-,hle⟩
  · exact Nat.lt_irrefl _ hlt
  · exact String.not_le.mpr before hle

end SchedulerAdapter

namespace Engine

variable {A N : Type}

/-- The retry of this number is yet to be dispatched again. -/
def Awaits (e : Engine A N) (n : ℕ) : Prop := (e.retries.lookup (retryKey n)).isSome

/-- The retry of this number is pending, and its timer is set. -/
structure OnFile (e : Engine A N) (n : ℕ) (p : PendingRetry) (due : Millis) : Prop where
  issued : n ≤ e.retryCounter
  pending : e.retries.lookup (retryKey n) = some p
  timer : e.dueAt (retryKey n) = some due

theorem OnFile.elapse {e : Engine A N} {n : ℕ} {p : PendingRetry} {due : Millis}
    (h : e.OnFile n p due) (dt : Millis) : (e.elapse dt).OnFile n p due :=
  ⟨h.issued,h.pending,h.timer⟩

theorem OnFile.awaits_tick [Adapter A] [NorthboundAdapter N] {e : Engine A N} {n : ℕ}
    {p : PendingRetry} {due : Millis} (h : e.OnFile n p due) (π : HashOrder) :
    (e.tickAdapters π).Awaits n := Option.isSome_of_eq_some h.pending

/-- Numbers are only given out, and the retries already numbered stay, but for the excepted ones. -/
structure Filed (but : TimerKey → Prop) (e e' : Engine A N) : Prop where
  counter : e.retryCounter ≤ e'.retryCounter
  kept : ∀ n ≤ e.retryCounter, ¬but (retryKey n) →
    e'.retries.lookup (retryKey n) = e.retries.lookup (retryKey n)

namespace Filed
variable {but : TimerKey → Prop} {e e' e'' : Engine A N}

theorem of_eq (hc : e'.retryCounter = e.retryCounter) (hr : e'.retries = e.retries) :
    Filed but e e' := ⟨hc.ge,fun n _ _ => by rw [hr]⟩

theorem trans (h : Filed but e e') (h' : Filed but e' e'') : Filed but e e'' :=
  ⟨h.counter.trans h'.counter,
    fun n hn hb => (h'.kept n (hn.trans h.counter) hb).trans (h.kept n hn hb)⟩

theorem of_scheduleRetry (e : Engine A N) (cmd : Command) (failedAttempt serial : ℕ) :
    Filed but e (e.scheduleRetry cmd failedAttempt serial) := by
  refine ⟨Nat.le_succ _,fun n hn _ => ?_⟩
  refine (HashMap.lookup_insert _ _ _ _).trans (if_neg fun hk => ?_)
  have hc : n = e.retryCounter+1 := retryKey_injective hk
  omega

theorem of_handleOutcome (e : Engine A N) (outcome : DispatchOutcome) (cmd : Command)
    (attempt serial depth : ℕ) : Filed but e (e.handleOutcome outcome cmd attempt serial depth) := by
  cases outcome with
  | ok | permanent => exact of_eq rfl rfl
  | transient reason =>
    simp only [handleOutcome]
    split_ifs
    · exact (of_eq rfl rfl : Filed but e (e.notify _)).trans (of_scheduleRetry _ _ _ _)
    · exact of_eq rfl rfl

variable [Adapter A]

theorem of_dispatchDevice {cmd : Command} {attempt depth : ℕ} {origin : Option ℕ}
    (h : dispatchDevice cmd attempt origin depth e = .ok e') : Filed but e e' := by
  have hi : Filed but e (e.issue cmd origin).2 := by cases origin <;> exact of_eq rfl rfl
  refine hi.trans ?_
  cases dispatchDevice_routed h with
  | bound idx outcome adapters bound handed =>
    have hb : Filed but (e.issue cmd origin).2 (((e.issue cmd origin).2.handOver idx cmd
      adapters).record (.handed idx cmd attempt (e.issue cmd origin).1 outcome)) := of_eq rfl rfl
    exact hb.trans (of_handleOutcome _ _ _ _ _ _)
  | unbound unbound => exact of_handleOutcome _ _ _ _ _ _

theorem of_acts {user : Command → Prop} {depth : ℕ} (h : ReflTransGen (Act user depth) e e') :
    Filed but e e' := by
  induction h with
  | refl => exact of_eq rfl rfl
  | tail _ h ih =>
    refine ih.trans ?_
    cases h with
    | dispatched | expanded | timer => exact of_eq rfl rfl
    | device cmd target _ h => exact of_dispatchDevice h

theorem of_dispatchAt {fuel attempt depth : ℕ} {cmd : Command} {origin : Option ℕ}
    (h : dispatchAt fuel cmd attempt origin depth e = .ok e') : Filed but e e' := by
  rcases dispatchAt_cases h with ⟨-,h⟩ | h
  · exact (of_eq rfl rfl : Filed but e (e.notify _)).trans (of_dispatchDevice h)
  · exact of_acts h

variable [NorthboundAdapter N]

theorem of_move {user : Command → Prop} (h : Move user but e e') : Filed but e e' := by
  cases h with
  | notice | firing | elapse | timer => exact of_eq rfl rfl
  | fold ev => cases ev <;> exact of_eq rfl rfl
  | refan device kind =>
    unfold Engine.refan
    split <;> exact of_eq rfl rfl
  | cancel rule =>
    unfold cancelForTimer
    split <;> exact of_eq rfl rfl
  | arm rule after =>
    unfold armForTimer
    cases e.pendingFor.lookup rule <;> exact of_eq rfl rfl
  | device cmd depth target _ h => exact of_dispatchDevice h
  | retry fuel key p may pending _ h =>
    have hf : Filed but { e with retries := e.retries.erase key } e' := of_dispatchAt h
    refine ⟨hf.counter,fun n hn hb => (hf.kept n hn hb).trans ?_⟩
    refine (HashMap.lookup_erase _ _ _).trans (if_neg ?_)
    rintro rfl
    exact hb may

/-- An event leaves every retry on file but the one whose timer it is. -/
theorem of_process {π : HashOrder} {fuel depth : ℕ} {ev : Event}
    (h : process π fuel ev depth e = .ok e') :
    Filed (fun key => ev = .timerElapsed key ∧ (e.retries.lookup key).isSome) e e' := by
  have hm : Moves (fun _ => True)
      (fun key => ev = .timerElapsed key ∧ (e.retries.lookup key).isSome) e e' :=
    process_moves (fun _ _ => trivial) (fun _ _ _ _ => trivial) (fun _ _ _ _ _ => trivial)
      (fun _ he hl => ⟨he,hl⟩) h
  clear h
  induction hm with
  | refl => exact of_eq rfl rfl
  | tail _ hm ih => exact ih.trans (of_move hm)

end Filed

/-- The retry of this number is taken off the file, and its command dispatched again. -/
def Redispatches [Adapter A] (n : ℕ) (p : PendingRetry) (e e' : Engine A N) : Prop :=
  ∃ fuel depth rest, e.queue = (.timerElapsed (retryKey n),depth) :: rest ∧
    dispatchAt fuel p.command p.attempt (some p.serial) 0
      { { e with queue := rest }.received (.timerElapsed (retryKey n)) depth with
        retries := e.retries.erase (retryKey n) } = .ok e'

section Process
variable [Adapter A] [NorthboundAdapter N] {π : HashOrder} {fuel depth n : ℕ} {ev : Event}
  {rest : List (Event × ℕ)} {e e' : Engine A N}

omit [Adapter A] [NorthboundAdapter N] in
theorem intercepts_of_awaits (h : e.Awaits n) : e.intercepts (.timerElapsed (retryKey n)) = true := by
  rw [Awaits] at h
  simp [intercepts,h]

/-- The timer of a retry takes it off the file. -/
theorem not_awaits_of_process (issued : n ≤ e.retryCounter) (le : depth ≤ e.maxCascadeDepth)
    (h : process π fuel (.timerElapsed (retryKey n)) depth e = .ok e') : ¬e'.Awaits n := by
  by_cases ha : e.Awaits n
  · cases process_processed h with
    | dropped _ deep => exact absurd deep (Nat.not_lt.mpr le)
    | retried _ p _ _ pending hd =>
      have hf : Filed (fun _ => False) { e.received (.timerElapsed (retryKey n)) depth with
        retries := e.retries.erase (retryKey n) } e' := .of_dispatchAt hd
      have hl := (hf.kept n issued id).trans (HashMap.lookup_erase _ _ _)
      simp [Awaits,hl]
    | elapsed _ _ _ fresh => simp [Awaits,fresh] at ha
    | reacted _ _ _ ordinary => exact absurd (intercepts_of_awaits ha) (by simp [ordinary])
  · have hl := (Filed.of_process h).kept n issued fun hb => ha hb.2
    rwa [Awaits,hl]

/-- A retry that an event leaves on file is as it was, and the event was not its timer. -/
theorem kept_of_process (issued : n ≤ e.retryCounter) (h : process π fuel ev depth e = .ok e')
    (awaits : e'.Awaits n) : e'.retries.lookup (retryKey n) = e.retries.lookup (retryKey n) ∧
      (ev,depth) ≠ (.timerElapsed (retryKey n),0) := by
  by_cases le : depth ≤ e.maxCascadeDepth
  · have hev : ev ≠ .timerElapsed (retryKey n) := by
      rintro rfl
      exact not_awaits_of_process issued le h awaits
    exact ⟨(Filed.of_process h).kept n issued fun hb => hev hb.1,fun he => hev (Prod.mk.inj he).1⟩
  · cases process_processed h with
    | dropped => exact ⟨rfl,fun he => le ((Prod.mk.inj he).2 ▸ Nat.zero_le _)⟩
    | _ => contradiction

/-- No retry leaves the file but by being dispatched again. -/
theorem redispatches_of_process {p : PendingRetry} (issued : n ≤ e.retryCounter)
    (pending : e.retries.lookup (retryKey n) = some p) (next : e.queue = (ev,depth) :: rest)
    (h : process π fuel ev depth { e with queue := rest } = .ok e') (taken : ¬e'.Awaits n) :
    e.Redispatches n p e' := by
  have hf := Filed.of_process h
  have awaits : ({ e with queue := rest } : Engine A N).Awaits n := Option.isSome_of_eq_some pending
  have hev : ev = .timerElapsed (retryKey n) := by
    by_contra hne
    have hl := hf.kept n issued fun hb => hne hb.1
    rw [Awaits,hl,pending] at taken
    exact taken rfl
  subst hev
  cases process_processed h with
  | dropped _ deep => exact absurd awaits taken
  | retried _ p' _ _ pending' hd =>
    cases pending.symm.trans pending'
    exact ⟨fuel,depth,rest,next,hd⟩
  | elapsed _ _ _ fresh => cases pending.symm.trans fresh
  | reacted _ _ _ ordinary => exact absurd (intercepts_of_awaits awaits) (by simp [ordinary])

end Process

/-- Two retries in line: while the first is awaited its timer is reported before the other's. -/
structure InLine (a b : ℕ) (e : Engine A N) : Prop where
  first : a ≤ e.retryCounter
  second : b ≤ e.retryCounter
  ahead : e.Awaits a → e.Awaits b ∧ ∃ pre post,
    e.queue = pre ++ (.timerElapsed (retryKey a),0) :: post ∧
      ∀ x ∈ pre, x.1 ≠ .timerElapsed (retryKey b)
  behind : e.Awaits b → (.timerElapsed (retryKey b),0) ∈ e.queue

namespace InLine
variable {a b : ℕ} {e e' : Engine A N}

theorem of_eq (h : e.InLine a b) (hc : e'.retryCounter = e.retryCounter)
    (hr : e'.retries = e.retries) (hq : e'.queue = e.queue) : e'.InLine a b := by
  obtain ⟨h₁,h₂,h₃,h₄⟩ := h
  unfold Awaits at h₃ h₄
  refine ⟨by rwa [hc],by rwa [hc],?_,?_⟩
  · unfold Awaits
    rwa [hr,hq]
  · unfold Awaits
    rwa [hr,hq]

/-- With nothing on the queue neither is awaited. -/
theorem of_idle (h : e.InLine a b) (idle : e.queue = []) : ¬e.Awaits a ∧ ¬e.Awaits b := by
  refine ⟨fun ha => ?_,fun hb => ?_⟩
  · obtain ⟨-,pre,post,hq,-⟩ := h.ahead ha
    simp [idle] at hq
  · have hm := h.behind hb
    rw [idle] at hm
    cases hm

theorem of_taken (h : e.InLine a b) (hc : e'.retryCounter = e.retryCounter)
    (hr : e'.retries = e.retries) (idle : e.queue = []) : e'.InLine a b := by
  obtain ⟨ha,hb⟩ := h.of_idle idle
  refine ⟨by rw [hc]; exact h.first,by rw [hc]; exact h.second,fun h => ?_,fun h => ?_⟩
  · rw [Awaits,hr] at h
    exact absurd h ha
  · rw [Awaits,hr] at h
    exact absurd h hb

/-- A tick that finds both timers due, at the same time, puts them in line. -/
theorem of_tick [Adapter A] [NorthboundAdapter N] {p p' : PendingRetry} {due : Millis}
    (π : HashOrder) (ha : e.OnFile a p due) (hb : e.OnFile b p' due) (idle : e.queue = [])
    (ripe : due ≤ e.now) (before : (retryKey a).name < (retryKey b).name) :
    (e.tickAdapters π).InLine a b := by
  obtain ⟨pre,post,hd,hpre⟩ := SchedulerAdapter.due_split π (e.trace.length+1) ha.timer hb.timer ripe
    before
  have hq := e.tickAdapters_queue π
  rw [idle,List.nil_append,hd] at hq
  have hb' : (Event.timerElapsed (retryKey b),0) ∈ (e.tickAdapters π).queue := by
    have hm : retryKey b ∈ pre ++ retryKey a :: post :=
      hd ▸ SchedulerAdapter.mem_due_keys.mpr ⟨due,hb.timer,ripe⟩
    rw [hq]
    exact List.mem_map.mpr ⟨_,List.mem_append_left _ (List.mem_map_of_mem hm),rfl⟩
  refine ⟨ha.issued,hb.issued,fun _ => ⟨hb.awaits_tick π,
    (pre.map Event.timerElapsed).map fun ev => (ev,0),
    (post.map Event.timerElapsed ++ e.heard).map fun ev => (ev,0),by simp [hq],?_⟩,fun _ => hb'⟩
  intro x hx he
  simp only [List.map_map,List.mem_map,Function.comp_apply] at hx
  obtain ⟨key,hk,rfl⟩ := hx
  cases he
  exact hpre hk

variable [Adapter A] [NorthboundAdapter N]

theorem process {π : HashOrder} {fuel depth : ℕ} {ev : Event} {rest : List (Event × ℕ)}
    (h : e.InLine a b) (next : e.queue = (ev,depth) :: rest)
    (hp : Engine.process π fuel ev depth { e with queue := rest } = .ok e') : e'.InLine a b := by
  have hf := Filed.of_process hp
  obtain ⟨evs,hq⟩ : ∃ evs, e'.queue = rest ++ evs := by
    have hp' := process_processed hp
    by_cases le : depth ≤ e.maxCascadeDepth
    · obtain ⟨evs,hq,-⟩ := hp'.queue le
      exact ⟨_,hq⟩
    · cases hp' with
      | dropped => exact ⟨[],(List.append_nil _).symm⟩
      | _ => contradiction
  have back {n : ℕ} (hn : n ≤ e.retryCounter) (h' : e'.Awaits n) :
      e.Awaits n ∧ (ev,depth) ≠ (.timerElapsed (retryKey n),0) := by
    obtain ⟨hl,hne⟩ := kept_of_process (e := { e with queue := rest }) hn hp h'
    rw [Awaits,hl] at h'
    exact ⟨h',hne⟩
  refine ⟨h.first.trans hf.counter,h.second.trans hf.counter,fun ha => ?_,fun hb => ?_⟩
  · obtain ⟨ha,hne⟩ := back h.first ha
    obtain ⟨hb,pre,post,hqueue,hpre⟩ := h.ahead ha
    cases pre with
    | nil =>
      rw [next] at hqueue
      exact absurd (List.cons.inj hqueue).1 hne
    | cons x pre =>
      obtain ⟨rfl,rfl⟩ : (ev,depth) = x ∧ rest = pre ++ _ := List.cons.inj (next.symm.trans hqueue)
      refine ⟨?_,pre,post ++ evs,by simp [hq],fun y hy => hpre y (List.mem_cons_of_mem _ hy)⟩
      have hl := hf.kept b h.second fun he => hpre _ List.mem_cons_self he.1
      rwa [Awaits,hl]
  · obtain ⟨hb,hne⟩ := back h.second hb
    have hm := h.behind hb
    rw [next] at hm
    rw [hq]
    rcases List.mem_cons.mp hm with hm | hm
    · exact absurd hm.symm hne
    · exact List.mem_append_left _ hm

end InLine

/-- A device command is dispatched and fails transiently, with attempts left. -/
structure Postponed [Adapter A] (cmd : Command) (attempt : ℕ) (e e' : Engine A N) : Prop where
  target : cmd.targetDevice.isSome
  left : attempt < e.retry.maxAttempts
  transient : ∃ idx reason adapters, cmd.targetDevice.bind e.deviceToAdapter.lookup = some idx ∧
    e.adapters.dispatch idx (e.resolveImplicitStateCommand cmd) e.now =
      some (.transient reason,adapters)
  dispatched : ∃ fuel origin depth, dispatchAt fuel cmd attempt origin depth e = .ok e'

theorem scheduleRetry_onFile (e : Engine A N) (cmd : Command) (failedAttempt serial : ℕ) :
    (e.scheduleRetry cmd failedAttempt serial).OnFile (e.retryCounter+1) ⟨cmd,failedAttempt+1,serial⟩
      (addMillis e.now (e.retry.backoff failedAttempt)) :=
  ⟨le_rfl,(HashMap.lookup_insert _ _ _ _).trans (if_pos rfl),
    (SchedulerAdapter.lookup_scheduleTimer _ _ _ _ _).trans (if_pos rfl)⟩

/-- Such a command is put on file under the next number. -/
theorem Postponed.onFile [Adapter A] {e e' : Engine A N} {cmd : Command} {attempt : ℕ}
    (fails : Postponed cmd attempt e e') : ∃ serial,
      e'.OnFile (e.retryCounter+1) ⟨e.resolveImplicitStateCommand cmd,attempt+1,serial⟩
        (addMillis e.now (e.retry.backoff attempt)) ∧
      ∀ n p due, e.OnFile n p due → e'.OnFile n p due := by
  obtain ⟨idx,reason,adapters,bound,handed⟩ := fails.transient
  obtain ⟨fuel,origin,depth,h⟩ := fails.dispatched
  have hf : Filed (fun _ => False) e e' := .of_dispatchAt h
  cases fuel with
  | zero => cases h
  | succ fuel =>
    rw [dispatchAt_device fails.target] at h
    have target : (e.resolveImplicitStateCommand cmd).targetDevice.isSome := by
      rw [resolveImplicitStateCommand_targetDevice]
      exact fails.target
    rw [← e.resolveImplicitStateCommand_targetDevice cmd] at bound
    generalize e.resolveImplicitStateCommand cmd = cmd at h target bound handed ⊢
    have hr := dispatchDevice_retried target h
    refine ⟨((e.notify (.commandDispatched cmd depth)).issue cmd origin).1,?_,fun n p due on => ?_⟩
    · have hl := fails.left
      have handled (e₂ : Engine A N) (serial : ℕ) (hn : e₂.now = e.now) (hr : e₂.retry = e.retry)
          (hc : e₂.retryCounter = e.retryCounter) :
          (e₂.handleOutcome (.transient reason) cmd attempt serial depth).OnFile (e.retryCounter+1)
            ⟨cmd,attempt+1,serial⟩ (addMillis e.now (e.retry.backoff attempt)) := by
        have hf := (e₂.notify (.dispatchFailed cmd reason true attempt)).scheduleRetry_onFile cmd
          attempt serial
        have hl' : attempt < (e₂.notify (.dispatchFailed cmd reason true attempt)).retry.maxAttempts :=
          hr.symm ▸ hl
        rw [handleOutcome,if_pos hl',← hn,← hr,← hc]
        exact hf
      cases dispatchDevice_routed h with
      | bound idx' outcome adapters' hb ho =>
        have hidx : some idx = some idx' := bound.symm.trans (by cases origin <;> exact hb)
        cases hidx
        have ho' : some (outcome,adapters') = some (.transient reason,adapters) :=
          Eq.trans (by cases origin <;> exact ho.symm) handed
        cases ho'
        apply handled <;> cases origin <;> rfl
      | unbound hb =>
        have hn : cmd.targetDevice.bind e.deviceToAdapter.lookup = none := by
          cases origin <;> exact hb
        cases bound.symm.trans hn
    · refine ⟨on.issued.trans hf.counter,(hf.kept n on.issued id).trans on.pending,?_⟩
      refine (hr.dueAt fun hk => ?_).trans on.timer
      have hc : n = e.retryCounter+1 := retryKey_injective hk
      exact absurd on.issued (by omega)

end Engine

section Run
variable {A N : Type} [Adapter A] [NorthboundAdapter N] {π : HashOrder} {host : Host N}
  {c c' : Config A N} {a b : ℕ}

theorem Step.inLine (step : Step π host c c') (h : c.engine.InLine a b) : c'.engine.InLine a b := by
  cases step with
  | start idle | synced idle => exact h.of_taken rfl rfl idle
  | inject ev may idle | advance dt idle | addNorthbound n may idle => exact h.of_taken rfl rfl idle
  | process fuel next hp => exact h.process next hp

theorem Run.inLine (run : Run π host c c') (h : c.engine.InLine a b) : c'.engine.InLine a b := by
  induction run with
  | refl => exact h
  | tail _ step ih => exact step.inLine ih

/-- A retry on file stays what it is, or is gone for good. -/
def Engine.Remains (n : ℕ) (p : PendingRetry) (e : Engine A N) : Prop :=
  n ≤ e.retryCounter ∧ ∀ q, e.retries.lookup (Engine.retryKey n) = some q → q = p

theorem Run.remains {n : ℕ} {p : PendingRetry} (run : Run π host c c')
    (h : c.engine.Remains n p) : c'.engine.Remains n p := by
  induction run with
  | refl => exact h
  | tail _ step ih =>
    cases step with
    | @process e e' _ ev depth rest fuel next hp =>
      have hf := Engine.Filed.of_process hp
      refine ⟨ih.1.trans hf.counter,fun q hq => ih.2 q ?_⟩
      obtain ⟨hl,-⟩ := Engine.kept_of_process (e := { e with queue := rest }) ih.1 hp
        (Option.isSome_of_eq_some hq)
      exact hl.symm.trans hq
    | _ => exact ih

/-- Of two retries in line, the one that leaves first is the first, and it is dispatched again. -/
theorem Engine.InLine.redispatches {p : PendingRetry} (h : c.engine.InLine a b)
    (step : Step π host c c') (apart : a ≠ b)
    (pending : c.engine.retries.lookup (retryKey a) = some p)
    (left : ¬(c'.engine.Awaits a ∧ c'.engine.Awaits b)) :
    Redispatches a p c.engine c'.engine ∧ ∀ q, ¬Redispatches b q c.engine c'.engine := by
  have ha : c.engine.Awaits a := Option.isSome_of_eq_some pending
  have taken : ¬c'.engine.Awaits a := fun ha' => left ⟨ha',((step.inLine h).ahead ha').1⟩
  obtain ⟨-,pre,post,hq,-⟩ := h.ahead ha
  have hr : Redispatches a p c.engine c'.engine := by
    cases hc : c.engine.queue with
    | nil => simp [hc] at hq
    | cons x rest =>
      obtain ⟨fuel,hp⟩ := step.of_next hc
      exact redispatches_of_process h.first pending hc hp taken
  refine ⟨hr,?_⟩
  rintro q ⟨_,_,_,hb,_⟩
  obtain ⟨_,_,_,ha,_⟩ := hr
  have he := (List.cons.inj (ha.symm.trans hb)).1
  exact apart (retryKey_injective (Event.timerElapsed.inj (Prod.mk.inj he).1))

end Run

/-- Two device commands that fail transiently at the same time and at the same attempt are put on file
with the same due time, the later one under the larger number. Once a tick finds both timers due, the
first of the two to leave the file is the earlier command, which is dispatched again, exactly if its
number is at most what the first digits of the other number make; else it is the later command. -/
theorem retries_keep_order_iff {A N : Type} [Adapter A] [NorthboundAdapter N] {cmd₁ cmd₂ : Command}
    {attempt : ℕ} {e₁ e₁' e₂ e₂' : Engine A N} (first : Engine.Postponed cmd₁ attempt e₁ e₁')
    (second : Engine.Postponed cmd₂ attempt e₂ e₂') (later : e₁'.retryCounter ≤ e₂.retryCounter)
    (now : e₂.now = e₁.now) (policy : e₂.retry = e₁.retry) : ∃ p₁ p₂ due,
      (p₁.command = e₁.resolveImplicitStateCommand cmd₁ ∧ p₁.attempt = attempt+1) ∧
      (p₂.command = e₂.resolveImplicitStateCommand cmd₂ ∧ p₂.attempt = attempt+1) ∧
      e₁'.OnFile (e₁.retryCounter+1) p₁ due ∧ e₂'.OnFile (e₂.retryCounter+1) p₂ due ∧
      (e₂.OnFile (e₁.retryCounter+1) p₁ due → e₂'.OnFile (e₁.retryCounter+1) p₁ due) ∧
      ∀ (π : HashOrder) (host : Host N) (e : Engine A N) (phase : Phase) (c : Config A N),
        e.OnFile (e₁.retryCounter+1) p₁ due → e.OnFile (e₂.retryCounter+1) p₂ due →
        e.queue = [] → due ≤ e.now → Run π host ⟨e.tickAdapters π,phase⟩ c →
        (c.engine.queue = [] →
          ¬c.engine.Awaits (e₁.retryCounter+1) ∧ ¬c.engine.Awaits (e₂.retryCounter+1)) ∧
        ∀ c', Step π host c c' → c.engine.Awaits (e₁.retryCounter+1) →
          c.engine.Awaits (e₂.retryCounter+1) →
          ¬(c'.engine.Awaits (e₁.retryCounter+1) ∧ c'.engine.Awaits (e₂.retryCounter+1)) →
          (Engine.Redispatches (e₁.retryCounter+1) p₁ c.engine c'.engine ↔
            e₁.retryCounter+1 ≤ leading (e₁.retryCounter+1) (e₂.retryCounter+1)) ∧
          (Engine.Redispatches (e₂.retryCounter+1) p₂ c.engine c'.engine ↔
            ¬e₁.retryCounter+1 ≤ leading (e₁.retryCounter+1) (e₂.retryCounter+1)) := by
  obtain ⟨s₁,on₁,-⟩ := first.onFile
  obtain ⟨s₂,on₂,frame⟩ := second.onFile
  rw [now,policy] at on₂
  have apart : e₁.retryCounter+1 < e₂.retryCounter+1 := Nat.lt_succ_of_le (on₁.issued.trans later)
  refine ⟨_,_,_,⟨rfl,rfl⟩,⟨rfl,rfl⟩,on₁,on₂,frame _ _ _,?_⟩
  intro π host e phase c h₁ h₂ idle ripe run
  generalize e₁.retryCounter+1 = i at h₁ apart ⊢
  generalize e₂.retryCounter+1 = j at h₂ apart ⊢
  have keys : (Engine.retryKey i).name < (Engine.retryKey j).name ↔ i ≤ leading i j :=
    numbered_lt_iff retryKeyPrefix apart
  -- whichever key comes first, its retry leads the line
  have leads {a b : ℕ} {p q : PendingRetry} (ha : e.OnFile a p (addMillis e₁.now
      (e₁.retry.backoff attempt))) (hb : e.OnFile b q (addMillis e₁.now (e₁.retry.backoff attempt)))
      (before : (Engine.retryKey a).name < (Engine.retryKey b).name) :
      (c.engine.queue = [] → ¬c.engine.Awaits a ∧ ¬c.engine.Awaits b) ∧
      ∀ c', Step π host c c' → c.engine.Awaits a → ¬(c'.engine.Awaits a ∧ c'.engine.Awaits b) →
        Engine.Redispatches a p c.engine c'.engine ∧
          ∀ q, ¬Engine.Redispatches b q c.engine c'.engine := by
    have line : c.engine.InLine a b := run.inLine (.of_tick π ha hb idle ripe before)
    have same : c.engine.Remains a p := run.remains ⟨ha.issued,fun q hq => by
      cases hq.symm.trans ha.pending
      rfl⟩
    refine ⟨line.of_idle,fun c' step awaits left => ?_⟩
    obtain ⟨q,hq⟩ := Option.isSome_iff_exists.mp awaits
    cases same.2 q hq
    refine line.redispatches step ?_ hq left
    rintro rfl
    exact String.lt_irrefl _ before
  by_cases hlead : i ≤ leading i j
  · obtain ⟨taken,hstep⟩ := leads h₁ h₂ (keys.mpr hlead)
    refine ⟨taken,fun c' step hi _ left => ?_⟩
    obtain ⟨hr,hn⟩ := hstep c' step hi left
    exact ⟨iff_of_true hr hlead,iff_of_false (hn _) (not_not_intro hlead)⟩
  · have before : (Engine.retryKey j).name < (Engine.retryKey i).name := by
      refine String.not_le.mp fun hle => hlead (keys.mp (String.not_le.mp fun hge => ?_))
      exact apart.ne (numbered_injective retryKeyPrefix (String.le_antisymm hle hge))
    obtain ⟨taken,hstep⟩ := leads h₂ h₁ before
    refine ⟨fun idle => (taken idle).symm,fun c' step _ hj left => ?_⟩
    obtain ⟨hr,hn⟩ := hstep c' step hj fun h => left h.symm
    exact ⟨iff_of_false (hn _) hlead,iff_of_true hr hlead⟩

/-- A light that fails ten times. -/
def sluggishEngine : Engine FlakyAdapter MockNorthbound :=
  ((Engine.new.addAdapter ⟨10⟩).1.bindDevice lamp 1).setRetryPolicy ⟨3,1000⟩

/-- The light fails to go on and then to go off; a second later it is first asked to go on again. -/
theorem sluggish_light_keeps_order : ∃ e₁ e₂ e₃ : Engine FlakyAdapter MockNorthbound,
    Engine.Postponed (.setSwitch lamp true) 1 sluggishEngine e₁ ∧
    Engine.Postponed (.setSwitch lamp false) 1 e₁ e₂ ∧
    ∃ p, p.command = .setSwitch lamp true ∧ p.attempt = 2 ∧
      Engine.Redispatches 1 p ((e₂.elapse 1000).tickAdapters .identity) e₃ := by
  have target (on : Bool) : (Command.setSwitch lamp on).targetDevice.isSome := rfl
  obtain ⟨e₁,h₁,t₁,e₂,h₂,t₂,rest,e₃,next,h₃,counter₁,now,policy,idle,hd,taken⟩ : ∃ e₁,
      Engine.dispatchAt 1 (.setSwitch lamp true) 1 none 0 sluggishEngine = .ok e₁ ∧
      (∃ idx reason adapters, (some lamp).bind sluggishEngine.deviceToAdapter.lookup = some idx ∧
        sluggishEngine.adapters.dispatch idx (.setSwitch lamp true) sluggishEngine.now =
          some (.transient reason,adapters)) ∧ ∃ e₂,
      Engine.dispatchAt 1 (.setSwitch lamp false) 1 none 0 e₁ = .ok e₂ ∧
      (∃ idx reason adapters, (some lamp).bind e₁.deviceToAdapter.lookup = some idx ∧
        e₁.adapters.dispatch idx (.setSwitch lamp false) e₁.now =
          some (.transient reason,adapters)) ∧ ∃ rest e₃,
      ((e₂.elapse 1000).tickAdapters .identity).queue =
        (.timerElapsed (Engine.retryKey 1),0) :: rest ∧
      Engine.process .identity 1 (.timerElapsed (Engine.retryKey 1)) 0
        { (e₂.elapse 1000).tickAdapters .identity with queue := rest } = .ok e₃ ∧
      e₁.retryCounter = 1 ∧ e₁.now = sluggishEngine.now ∧ e₁.retry = sluggishEngine.retry ∧
      (e₂.elapse 1000).queue = [] ∧ e₂.dueAt (Engine.retryKey 1) = some (e₂.elapse 1000).now ∧
      e₃.retries.lookup (Engine.retryKey 1) = none :=
    ⟨_,rfl,⟨1,_,_,rfl,rfl⟩,_,rfl,⟨1,_,_,rfl,rfl⟩,_,_,rfl,rfl,rfl,rfl,rfl,rfl,rfl,rfl⟩
  have first : Engine.Postponed (.setSwitch lamp true) 1 sluggishEngine e₁ :=
    ⟨target _,by decide,t₁,1,none,0,h₁⟩
  have second : Engine.Postponed (.setSwitch lamp false) 1 e₁ e₂ :=
    ⟨target _,by rw [policy]; decide,t₂,1,none,0,h₂⟩
  have order := retries_keep_order_iff first second le_rfl now policy
  rw [show sluggishEngine.retryCounter+1 = 1 from rfl] at order
  obtain ⟨p₁,p₂,due,⟨hc,ha⟩,-,on₁,on₂,frame,order⟩ := order
  have on₁' := frame on₁
  have ripe : due ≤ (e₂.elapse 1000).now := (Option.some.inj (on₁'.timer.symm.trans hd)).le
  obtain ⟨-,steps⟩ := order .identity .any (e₂.elapse 1000) .wired _ (on₁'.elapse 1000)
    (on₂.elapse 1000) idle ripe .refl
  obtain ⟨hr,-⟩ := steps ⟨e₃,.wired⟩ (.process 1 next h₃)
    ((on₁'.elapse 1000).awaits_tick _) ((on₂.elapse 1000).awaits_tick _) fun h => by
    rw [Engine.Awaits,Engine.Awaits] at h
    cases (Option.isSome_iff_exists.mp h.1).choose_spec.symm.trans taken
  refine ⟨e₁,e₂,e₃,first,second,p₁,hc,ha,hr.mpr ?_⟩
  rw [counter₁]
  decide

/-- The host asks the light for one level after the other. -/
def askFor (levels : List UInt8) (e : Engine FlakyAdapter MockNorthbound) :
    Exec (Engine FlakyAdapter MockNorthbound) :=
  levels.foldlM (fun e level => Engine.inject .identity 5
    (.requestedChange lamp (.set (.brightness level))) e) e

/-- Ten levels are asked for at once and the light takes none. A second later the tenth is asked for
again before the ninth, though it was asked for after it. -/
theorem tenth_retry_overtakes :
    ((askFor [1,2,3,4,5,6,7,8,9,10] sluggishEngine).map fun e =>
      (e.retries.lookup (Engine.retryKey 9),e.retries.lookup (Engine.retryKey 10))) =
        .ok (some ⟨.setBrightness lamp 9 none,2,8⟩,some ⟨.setBrightness lamp 10 none,2,9⟩) ∧
    ((askFor [1,2,3,4,5,6,7,8,9,10] sluggishEngine).map fun e =>
      (e.dueAt (Engine.retryKey 9),e.dueAt (Engine.retryKey 10))) = .ok (some 1000,some 1000) ∧
    (((askFor [1,2,3,4,5,6,7,8,9,10] sluggishEngine).bind (Engine.advance .identity 20 1000)).map
      fun e => e.dispatches.filter fun x => x.2.1 == 1) =
        .ok ([1,2,3,4,5,6,7,8,9,10].map (fun level => (0,1,.setBrightness lamp level none)) ++
          [1,10,2,3,4,5,6,7,8,9].map (fun level => (1000,1,.setBrightness lamp level none))) :=
  ⟨rfl,rfl,rfl⟩

end Domiform
