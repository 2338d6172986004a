import Domiform.Engine.Timers

/-! Timers that elapse. The scheduler hands a key that is due to the queue, once; a key of the
engine's own was issued before it was scheduled, and is never scheduled again. -/
namespace Domiform
open Library Relation

/-- A command that neither schedules nor cancels any of the given keys. -/
def Command.Avoids (own : TimerKey → Prop) : Command → Prop
  | scheduleTimer key _ | cancelTimer key => ¬own key
  | _ => True

theorem Command.Avoids.of_not_timer {own : TimerKey → Prop} {c : Command} (h : c.isTimer = false) :
    c.Avoids own := by
  cases c with
  | scheduleTimer | cancelTimer => cases h
  | _ => trivial

/-- Only the scheduler says that a timer elapsed. -/
structure SchedulerOnly (A : Type) {N : Type} [Adapter A] [NorthboundAdapter N] (host : Host N) :
    Prop where
  injected : ∀ ev, host.injects ev → ev.isTimerElapsed = false
  dispatched : Adapter.DispatchTimerless A
  ticked : Adapter.TickTimerless A
  northbound : Adapter.TickTimerless N

/-- A host that injects everything but expiries. -/
def Host.timerless {N : Type} : Host N := ⟨fun ev => ev.isTimerElapsed = false,fun _ => True⟩

theorem schedulerOnly_virtual :
    SchedulerOnly VirtualDeviceAdapter (.timerless : Host MockNorthbound) :=
  ⟨fun _ h => h,VirtualDeviceAdapter.dispatchTimerless,VirtualDeviceAdapter.tickTimerless,
    MockNorthbound.tickTimerless⟩

namespace Engine
variable {A N : Type}

/-- The keys of the engine's own timers. -/
inductive Own : TimerKey → Prop
  | waiting (n : ℕ) : Own (forKey (n+1))
  | retrying (n : ℕ) : Own (retryKey (n+1))

/-- When the scheduler will report the key. -/
def dueAt (e : Engine A N) (key : TimerKey) : Option Millis :=
  e.adapters.scheduler.pending.lookup key

/-- The key carries a number already handed out. -/
def Issued (e : Engine A N) (key : TimerKey) : Prop :=
  (∃ n ≤ e.forCounter, key = forKey n) ∨ ∃ n ≤ e.retryCounter, key = retryKey n

/-- How the given keys, those of the engine's own timers or some of them, come and go. -/
structure Timely (own : TimerKey → Prop) (e : Engine A N) : Prop where
  shallow : ∀ key depth, (.timerElapsed key,depth) ∈ e.queue → depth = 0
  once : ((e.queue.map Prod.fst).filter Event.isTimerElapsed).Nodup
  pending : ∀ key t, own key → e.dueAt key = some t → e.Issued key
  elapsing : ∀ key depth, own key → (.timerElapsed key,depth) ∈ e.queue →
    e.Issued key ∧ e.dueAt key = none

theorem Issued.of_le {e e' : Engine A N} {key : TimerKey} (h : e.Issued key)
    (hf : e.forCounter ≤ e'.forCounter) (hr : e.retryCounter ≤ e'.retryCounter) :
    e'.Issued key := by
  rcases h with ⟨n,hn,hk⟩ | ⟨n,hn,hk⟩
  · exact .inl ⟨n,hn.trans hf,hk⟩
  · exact .inr ⟨n,hn.trans hr,hk⟩

theorem Issued.ne_next_for {e : Engine A N} {key : TimerKey} (h : e.Issued key) :
    key ≠ forKey (e.forCounter+1) := by
  rintro rfl
  rcases h with ⟨n,hn,hk⟩ | ⟨n,-,hk⟩
  · have := forKey_injective hk
    omega
  · exact forKey_ne_retryKey _ _ hk

theorem Issued.ne_next_retry {e : Engine A N} {key : TimerKey} (h : e.Issued key) :
    key ≠ retryKey (e.retryCounter+1) := by
  rintro rfl
  rcases h with ⟨n,-,hk⟩ | ⟨n,hn,hk⟩
  · exact forKey_ne_retryKey _ _ hk.symm
  · have := retryKey_injective hk
    omega

section Operations
variable (e : Engine A N) (rule : RuleId)

theorem cancelForTimer_dueAt (key : TimerKey) : (e.cancelForTimer rule).dueAt key =
    if e.pendingFor.lookup rule = some ⟨key⟩ then none else e.dueAt key := by
  unfold cancelForTimer
  cases hl : e.pendingFor.lookup rule with
  | none => simp
  | some p =>
    obtain ⟨k⟩ := p
    have hd := SchedulerAdapter.lookup_cancelTimer e.adapters.scheduler k key e.now
    simpa [dueAt,schedule,eq_comm] using hd

theorem cancelForTimer_pendingFor (r : RuleId) : (e.cancelForTimer rule).pendingFor.lookup r =
    if r = rule then none else e.pendingFor.lookup r := by
  unfold cancelForTimer
  cases hl : e.pendingFor.lookup rule with
  | none =>
    split_ifs with hr
    · rw [hr,hl]
    · rfl
  | some p => exact HashMap.lookup_erase _ _ _

theorem armForTimer_dueAt (after : Millis) (key : TimerKey) :
    (e.armForTimer rule after).dueAt key =
      if key = forKey (e.forCounter+1) then some (addMillis e.now after)
      else if e.pendingFor.lookup rule = some ⟨key⟩ then none else e.dueAt key := by
  unfold armForTimer
  cases hl : e.pendingFor.lookup rule with
  | none =>
    apply (SchedulerAdapter.lookup_scheduleTimer _ _ _ _ _).trans
    simp [dueAt]
  | some p =>
    obtain ⟨k⟩ := p
    apply (SchedulerAdapter.lookup_scheduleTimer _ _ _ _ _).trans
    have hd := SchedulerAdapter.lookup_cancelTimer e.adapters.scheduler k key e.now
    congr 1
    simpa [dueAt,schedule,eq_comm] using hd

theorem armForTimer_pendingFor (after : Millis) (r : RuleId) :
    (e.armForTimer rule after).pendingFor.lookup r =
      if r = rule then some ⟨forKey (e.forCounter+1)⟩ else e.pendingFor.lookup r := by
  unfold armForTimer
  cases hl : e.pendingFor.lookup rule with
  | none => exact HashMap.lookup_insert _ _ _ _
  | some p =>
    apply (HashMap.lookup_insert _ _ _ _).trans
    by_cases hr : r = rule
    · rw [if_pos hr,if_pos hr]
      rfl
    · rw [if_neg hr,if_neg hr]
      exact (HashMap.lookup_erase _ _ _).trans (if_neg hr)

theorem armForTimer_counters (after : Millis) :
    (e.armForTimer rule after).forCounter = e.forCounter+1 ∧
      (e.armForTimer rule after).retryCounter = e.retryCounter := by
  unfold armForTimer
  cases e.pendingFor.lookup rule <;> exact ⟨rfl,rfl⟩

theorem cancelForTimer_counters : (e.cancelForTimer rule).forCounter = e.forCounter ∧
    (e.cancelForTimer rule).retryCounter = e.retryCounter := by
  unfold cancelForTimer
  cases e.pendingFor.lookup rule <;> exact ⟨rfl,rfl⟩

/-- A command leaves the keys it avoids as they are. -/
theorem schedule_dueAt {own : TimerKey → Prop} {cmd : Command} (avoids : cmd.Avoids own)
    {key : TimerKey} (hk : own key) : (e.schedule cmd).dueAt key = e.dueAt key := by
  cases cmd with
  | scheduleTimer k after =>
    refine (SchedulerAdapter.lookup_scheduleTimer _ k key after _).trans (if_neg ?_)
    rintro rfl
    exact avoids hk
  | cancelTimer k =>
    refine (SchedulerAdapter.lookup_cancelTimer _ k key e.now).trans (if_neg ?_)
    rintro rfl
    exact avoids hk
  | _ => rfl

end Operations

/-- What a move does to one of the engine's own keys. -/
inductive Rescheduled (key : TimerKey) (e e' : Engine A N) : Prop
  | kept (h : e'.dueAt key = e.dueAt key)
  | cancelled (h : e'.dueAt key = none)
  | issued (fresh : ¬e.Issued key) (h : e'.Issued key)

theorem Retried.dueAt {e e' : Engine A N} (h : Retried e e') {key : TimerKey}
    (hk : key ≠ retryKey (e.retryCounter+1)) : e'.dueAt key = e.dueAt key := by
  cases h with
  | kept _ _ hs => exact congrArg (fun s => SchedulerAdapter.pending s |>.lookup key) hs
  | scheduled p delay _ _ _ hs =>
    unfold Engine.dueAt
    rw [hs,HashMap.lookup_insert,if_neg hk]

theorem Retried.retryCounter_le {e e' : Engine A N} (h : Retried e e') :
    e.retryCounter ≤ e'.retryCounter := by
  cases h with
  | kept _ hc _ => omega
  | scheduled _ _ _ _ hc _ => omega

theorem Retried.rescheduled {e e' : Engine A N} (h : Retried e e') (key : TimerKey) :
    Rescheduled key e e' := by
  by_cases hk : key = retryKey (e.retryCounter+1)
  · cases h with
    | kept _ _ hs => exact .kept (congrArg (fun s => SchedulerAdapter.pending s |>.lookup key) hs)
    | scheduled _ _ _ _ hc _ =>
      exact .issued (fun hi => hi.ne_next_retry hk) (.inr ⟨_,hc.ge,hk⟩)
  · exact .kept (h.dueAt hk)

variable [Adapter A] {own : TimerKey → Prop} {e e' : Engine A N}

/-- Dispatching a fresh command moves none of the keys in use that it avoids. -/
theorem Act.dueAt {depth : ℕ} (h : Act (Command.Avoids own) depth e e') {key : TimerKey} (hk : own key)
    (issued : e.Issued key) : e'.dueAt key = e.dueAt key ∧ e'.Issued key := by
  cases h with
  | dispatched | expanded => exact ⟨rfl,issued⟩
  | timer cmd _ avoids => exact ⟨e.schedule_dueAt avoids hk,issued⟩
  | device cmd target _ hd =>
    have hr := dispatchDevice_retried target hd
    have hf := dispatchDevice_dispatched hd
    exact ⟨hr.dueAt issued.ne_next_retry,issued.of_le hf.forCounter.ge hr.retryCounter_le⟩

theorem acts_dueAt {depth : ℕ} (h : ReflTransGen (Act (Command.Avoids own) depth) e e') {key : TimerKey}
    (hk : own key) (issued : e.Issued key) : e'.dueAt key = e.dueAt key ∧ e'.Issued key := by
  induction h with
  | refl => exact ⟨rfl,issued⟩
  | tail _ h ih =>
    obtain ⟨hd,hi⟩ := ih
    obtain ⟨hd',hi'⟩ := h.dueAt hk hi
    exact ⟨hd'.trans hd,hi'⟩

/-- A retry taken up again, as the dispatch of the device command it is. -/
theorem retry_dispatched (keyed : e.Keyed) {fuel : ℕ} {key : TimerKey} {p : PendingRetry}
    (pending : e.retries.lookup key = some p)
    (h : dispatchAt fuel p.command p.attempt (some p.serial) 0
      { e with retries := e.retries.erase key } = .ok e') :
    ∃ cmd, cmd.targetDevice.isSome ∧ cmd = e.resolveImplicitStateCommand p.command ∧
      dispatchDevice cmd p.attempt (some p.serial) 0
        ({ e with retries := e.retries.erase key }.notify (.commandDispatched cmd 0)) = .ok e' := by
  have target := (keyed.retrying key p pending).2
  cases fuel with
  | zero => cases h
  | succ fuel =>
    rw [dispatchAt_device target] at h
    refine ⟨_,?_,rfl,h⟩
    rwa [resolveImplicitStateCommand_targetDevice]

variable [NorthboundAdapter N]

theorem Move.counters {user : Command → Prop} {again : TimerKey → Prop} (keyed : e.Keyed)
    (hm : Move user again e e') :
    e.forCounter ≤ e'.forCounter ∧ e.retryCounter ≤ e'.retryCounter := by
  cases hm with
  | notice | firing | elapse | timer => exact ⟨le_rfl,le_rfl⟩
  | fold ev => cases ev <;> exact ⟨le_rfl,le_rfl⟩
  | refan device kind =>
    unfold Engine.refan
    split <;> exact ⟨le_rfl,le_rfl⟩
  | cancel rule =>
    obtain ⟨hf,hr⟩ := e.cancelForTimer_counters rule
    exact ⟨hf.ge,hr.ge⟩
  | arm rule after =>
    obtain ⟨hf,hr⟩ := e.armForTimer_counters rule after
    exact ⟨by omega,hr.ge⟩
  | device cmd depth target _ hd =>
    exact ⟨(dispatchDevice_dispatched hd).forCounter.ge,(dispatchDevice_retried target hd).retryCounter_le⟩
  | retry fuel key p _ pending _ hd =>
    obtain ⟨cmd,target,-,hd⟩ := retry_dispatched keyed pending hd
    exact ⟨(dispatchDevice_dispatched hd).forCounter.ge,(dispatchDevice_retried target hd).retryCounter_le⟩

theorem Move.rescheduled {again : TimerKey → Prop} (keyed : e.Keyed)
    (hm : Move (Command.Avoids own) again e e') {key : TimerKey} (hk : own key) : Rescheduled key e e' := by
  cases hm with
  | notice | firing | elapse => exact .kept rfl
  | fold ev => cases ev <;> exact .kept rfl
  | refan device kind =>
    unfold Engine.refan
    split <;> exact .kept rfl
  | cancel rule =>
    have hd := e.cancelForTimer_dueAt rule key
    split_ifs at hd
    · exact .cancelled hd
    · exact .kept hd
  | arm rule after =>
    have hd := e.armForTimer_dueAt rule after key
    split_ifs at hd with hn
    · exact .issued (fun hi => hi.ne_next_for hn)
        (.inl ⟨_,(e.armForTimer_counters rule after).1.ge,hn⟩)
    · exact .cancelled hd
    · exact .kept hd
  | timer cmd _ avoids => exact .kept (e.schedule_dueAt avoids hk)
  | device cmd depth target _ hd => exact (dispatchDevice_retried target hd).rescheduled key
  | retry fuel k p _ pending _ hd =>
    obtain ⟨cmd,target,-,hd⟩ := retry_dispatched keyed pending hd
    have h := (dispatchDevice_retried target hd).rescheduled key
    cases h with
    | kept h => exact .kept h
    | cancelled h => exact .cancelled h
    | issued fresh h => exact .issued fresh h

/-- A move puts no elapsed timer on the queue. -/
theorem Move.queue {user : Command → Prop} {again : TimerKey → Prop}
    (timerless : Adapter.DispatchTimerless A) (hm : Move user again e e') :
    ∃ evs : List (Event × ℕ), e'.queue = e.queue ++ evs ∧ ∀ x ∈ evs, x.1.isTimerElapsed = false := by
  have same (h : e'.queue = e.queue) : ∃ evs : List (Event × ℕ), e'.queue = e.queue ++ evs ∧
      ∀ x ∈ evs, x.1.isTimerElapsed = false := ⟨[],by simp [h],by simp⟩
  have frame {depth : ℕ} (h : ∃ evs : List Event, e'.queue = e.queue ++
      evs.map (fun ev => (ev,nextDepth depth)) ∧ ∀ ev ∈ evs, Yields A ev) :
      ∃ evs : List (Event × ℕ), e'.queue = e.queue ++ evs ∧
        ∀ x ∈ evs, x.1.isTimerElapsed = false := by
    obtain ⟨evs,he,hy⟩ := h
    refine ⟨_,he,fun x hx => ?_⟩
    obtain ⟨ev,hm,rfl⟩ := List.mem_map.mp hx
    exact (hy ev hm).isTimerElapsed timerless
  cases hm with
  | notice | firing | elapse | timer => exact same rfl
  | fold ev => cases ev <;> exact same rfl
  | refan device kind =>
    apply same
    unfold Engine.refan
    split <;> rfl
  | cancel rule =>
    apply same
    unfold cancelForTimer
    split <;> rfl
  | arm rule after =>
    apply same
    unfold armForTimer
    cases e.pendingFor.lookup rule <;> rfl
  | device cmd depth target _ hd => exact frame (dispatchDevice_dispatched hd).queue
  | retry fuel key p _ pending _ hd =>
    exact frame (dispatchAt_frame hd).queue

namespace Timely

omit [Adapter A] [NorthboundAdapter N] in
theorem of_eq (h : e.Timely own) (hq : e'.queue = e.queue) (ha : e'.adapters = e.adapters)
    (hf : e'.forCounter = e.forCounter) (hr : e'.retryCounter = e.retryCounter) :
    e'.Timely own := by
  obtain ⟨hs,ho,hp,he⟩ := h
  have hd : e'.dueAt = e.dueAt := by
    unfold dueAt
    rw [ha]
  have hi : e'.Issued = e.Issued := by
    unfold Issued
    rw [hf,hr]
  exact ⟨by rwa [hq],by rwa [hq],by rwa [hd,hi],by rwa [hq,hd,hi]⟩

omit [Adapter A] [NorthboundAdapter N] in
/-- Taking the head off the queue. -/
theorem pop {x : Event × ℕ} {rest : List (Event × ℕ)} (h : e.Timely own) (next : e.queue = x :: rest) :
    ({ e with queue := rest } : Engine A N).Timely own := by
  have hm (y) (hy : y ∈ rest) : y ∈ e.queue := by
    rw [next]
    exact List.mem_cons_of_mem _ hy
  refine ⟨fun key depth hy => h.shallow key depth (hm _ hy),?_,h.pending,
    fun key depth hk hy => h.elapsing key depth hk (hm _ hy)⟩
  have ho := h.once
  rw [next] at ho
  exact ho.sublist (((List.sublist_cons_self x rest).map Prod.fst).filter _)

omit [NorthboundAdapter N] [Adapter A] in
theorem of_append {evs : List (Event × ℕ)} (hq : e'.queue = e.queue ++ evs)
    (hy : ∀ x ∈ evs, x.1.isTimerElapsed = false) {key : TimerKey} {depth : ℕ} :
    (.timerElapsed key,depth) ∈ e'.queue ↔ (.timerElapsed key,depth) ∈ e.queue := by
  rw [hq,List.mem_append]
  constructor
  · rintro (hm | hm)
    · exact hm
    · exact absurd (hy _ hm) (by simp [Event.isTimerElapsed])
  · exact .inl

theorem move {again : TimerKey → Prop} (h : e.Timely own) (keyed : e.Keyed)
    (timerless : Adapter.DispatchTimerless A) (hm : Move (Command.Avoids own) again e e') :
    e'.Timely own := by
  obtain ⟨evs,hq,hy⟩ := hm.queue timerless
  obtain ⟨hf,hr⟩ := hm.counters keyed
  refine ⟨fun key depth hx => ?_,?_,fun key t ho hd => ?_,fun key depth ho hx => ?_⟩
  · exact h.shallow key depth ((of_append hq hy).mp hx)
  · have hn : (evs.map Prod.fst).filter Event.isTimerElapsed = [] := by
      rw [List.filter_eq_nil_iff]
      intro ev hev
      obtain ⟨x,hx,rfl⟩ := List.mem_map.mp hev
      simp [hy x hx]
    rw [hq,List.map_append,List.filter_append,hn,List.append_nil]
    exact h.once
  · cases hm.rescheduled keyed ho with
    | kept hk => exact (h.pending key t ho (hk.symm.trans hd)).of_le hf hr
    | cancelled hk => rw [hk] at hd; cases hd
    | issued _ hi => exact hi
  · obtain ⟨hi,hd⟩ := h.elapsing key depth ho ((of_append hq hy).mp hx)
    refine ⟨hi.of_le hf hr,?_⟩
    cases hm.rescheduled keyed ho with
    | kept hk => exact hk.trans hd
    | cancelled hk => exact hk
    | issued fresh _ => exact absurd hi fresh

theorem moves {again : TimerKey → Prop} (h : e.Timely own) (keyed : e.Keyed)
    (timerless : Adapter.DispatchTimerless A) (hm : Moves (Command.Avoids own) again e e') :
    e'.Timely own := by
  have inv : e'.Timely own ∧ e'.Keyed := by
    induction hm with
    | refl => exact ⟨h,keyed⟩
    | tail _ hm ih => exact ⟨ih.1.move ih.2 timerless hm,ih.2.move hm⟩
  exact inv.1

end Timely

section Tick
variable (π : HashOrder)

theorem tickAdapters_dueAt (e : Engine A N) (key : TimerKey) : (e.tickAdapters π).dueAt key =
    if ∃ t, e.dueAt key = some t ∧ t ≤ e.now then none else e.dueAt key :=
  SchedulerAdapter.lookup_tick _ _ _ _ _

/-- What the adapters but the scheduler hear during a tick. -/
def heard (e : Engine A N) : List Event :=
  e.adapters.rest.flatMap (fun a => (Adapter.tick a e.now).1) ++
    e.northbound.flatMap fun nb : Northbound N => (nb.tick e.now).1

theorem tickAdapters_queue (e : Engine A N) : (e.tickAdapters π).queue = e.queue ++
    (((e.adapters.scheduler.due π (e.trace.length+1) e.now).map Prod.snd).map
      Event.timerElapsed ++ e.heard).map fun ev => (ev,0) := by
  simp [tickAdapters,enqueueAll,AdapterTable.tick,SchedulerAdapter.tick,heard,record]

theorem heard_timerless {host : Host N} (only : SchedulerOnly A host) {e : Engine A N} {ev : Event}
    (h : ev ∈ e.heard) : ev.isTimerElapsed = false := by
  rcases List.mem_append.mp h with h | h
  · obtain ⟨a,-,ha⟩ := List.mem_flatMap.mp h
    exact only.ticked a e.now ev ha
  · obtain ⟨nb,-,hn⟩ := List.mem_flatMap.mp h
    exact only.northbound nb.adapter e.now ev hn

/-- A tick queues exactly the timers that are due. -/
theorem mem_tickAdapters_queue {host : Host N} (only : SchedulerOnly A host) {e : Engine A N}
    (idle : e.queue = []) {key : TimerKey} {depth : ℕ} :
    (.timerElapsed key,depth) ∈ (e.tickAdapters π).queue ↔
      depth = 0 ∧ ∃ t, e.dueAt key = some t ∧ t ≤ e.now := by
  rw [tickAdapters_queue,idle,List.nil_append,List.mem_map]
  constructor
  · rintro ⟨ev,hm,he⟩
    cases he
    refine ⟨rfl,?_⟩
    rcases List.mem_append.mp hm with hm | hm
    · obtain ⟨k,hk,he⟩ := List.mem_map.mp hm
      cases he
      exact SchedulerAdapter.mem_due_keys.mp hk
    · exact absurd (heard_timerless only hm) (by simp [Event.isTimerElapsed])
  · rintro ⟨rfl,hd⟩
    exact ⟨_,List.mem_append_left _ (List.mem_map.mpr ⟨key,SchedulerAdapter.mem_due_keys.mpr hd,rfl⟩),rfl⟩

theorem Timely.tick {host : Host N} (only : SchedulerOnly A host) (h : e.Timely own)
    (idle : e.queue = []) : (e.tickAdapters π).Timely own := by
  refine ⟨fun key depth hm => ?_,?_,fun key t ho hd => ?_,fun key depth ho hm => ?_⟩
  · exact ((mem_tickAdapters_queue π only idle).mp hm).1
  · have hn : e.heard.filter Event.isTimerElapsed = [] := by
      rw [List.filter_eq_nil_iff]
      intro ev hev
      simp [heard_timerless only hev]
    have hs : Function.Injective Event.timerElapsed := fun _ _ h => Event.timerElapsed.inj h
    rw [tickAdapters_queue,idle,List.nil_append,List.map_map]
    have hid : (Prod.fst ∘ fun ev : Event => (ev,0)) = id := rfl
    rw [hid,List.map_id,List.filter_append,hn,List.append_nil]
    exact ((SchedulerAdapter.due_keys_nodup π _ _ _).map hs).filter _
  · rw [tickAdapters_dueAt] at hd
    split_ifs at hd
    exact h.pending key t ho hd
  · obtain ⟨-,hd⟩ := (mem_tickAdapters_queue π only idle).mp hm
    refine ⟨?_,by rw [tickAdapters_dueAt,if_pos hd]⟩
    obtain ⟨t,ht,-⟩ := hd
    exact h.pending key t ho ht

end Tick

omit [Adapter A] [NorthboundAdapter N] in
theorem Fresh.timely (h : e.Fresh) : e.Timely own := by
  have hs : e.adapters.scheduler = ⟨∅⟩ := congrArg Timers.scheduler h.timers
  refine ⟨by simp [h.queue],by simp [h.queue],fun key t _ hd => ?_,by simp [h.queue]⟩
  unfold dueAt at hd
  rw [hs] at hd
  cases hd

end Engine

variable {A N : Type} {user : Command → Prop}

/-- The commands of all rules and scenes meet `user`. -/
structure Engine.CommandsIn (user : Command → Prop) (e : Engine A N) : Prop where
  rules : e.RulesIn user
  scenes : e.ScenesIn user

namespace Engine.CommandsIn
variable {e e' : Engine A N}

theorem of_wiring (h : e.CommandsIn user) (hw : e.Wiring e') : e'.CommandsIn user := by
  obtain ⟨hr,hs⟩ := h
  unfold RulesIn at hr
  unfold ScenesIn at hs
  refine ⟨?_,?_⟩
  · unfold RulesIn
    rwa [hw.rules]
  · unfold ScenesIn
    rwa [hw.scenes]

theorem mono {user' : Command → Prop} (h : e.CommandsIn user) (hu : ∀ c, user c → user' c) :
    e.CommandsIn user' :=
  ⟨fun r hr c hc => hu c (h.rules r hr c hc),fun s cs hl c hc => hu c (h.scenes s cs hl c hc)⟩

variable [Adapter A] [NorthboundAdapter N] {π : HashOrder} {fuel depth : ℕ} {ev : Event}
  {rest : List (Event × ℕ)}

/-- The event at the head of the queue is processed by moves, whose only retry is the one that the
event is the timer of. -/
theorem moves (h : e.CommandsIn user) (free : ∀ c : Command, c.isTimer = false → user c)
    (hp : { e with queue := rest }.process π fuel ev depth = .ok e') :
    Moves user (fun key => ev = .timerElapsed key ∧ (e.retries.lookup key).isSome)
      { e with queue := rest } e' :=
  process_moves free h.rules h.scenes (fun _ he hs => ⟨he,hs⟩) hp

end Engine.CommandsIn

variable [Adapter A] [NorthboundAdapter N] {π : HashOrder} {host : Host N} {own : TimerKey → Prop}
  {c c' : Config A N}

theorem Step.timely (only : SchedulerOnly A host)
    (avoid : c.engine.CommandsIn (Command.Avoids own)) (keyed : c.engine.Keyed)
    (step : Step π host c c') (h : c.engine.Timely own) : c'.engine.Timely own := by
  cases step with
  | @process e e' p ev depth rest fuel next hp =>
    have keyed' : ({ e with queue := rest } : Engine A N).Keyed := keyed.of_eq rfl rfl rfl rfl
    exact (h.pop next).moves keyed' only.dispatched (avoid.moves (fun _ => .of_not_timer) hp)
  | @start e p idle ready =>
    exact Engine.Timely.tick π only (e := e.record .started) (h.of_eq rfl rfl rfl rfl) idle
  | @advance e p dt idle ready =>
    exact Engine.Timely.tick π only (e := e.elapse dt) (h.of_eq rfl rfl rfl rfl) idle
  | @inject e p ev may idle ready =>
    have hn := only.injected ev may
    have hmem {key : TimerKey} {depth : ℕ} : (.timerElapsed key,depth) ∈ (e.enqueue ev 0).queue ↔
        (.timerElapsed key,depth) ∈ e.queue :=
      Engine.Timely.of_append rfl (by simpa using hn)
    refine ⟨fun key depth hm => ?_,?_,h.pending,fun key depth ho hm => ?_⟩
    · exact h.shallow key depth (hmem.mp hm)
    · simp [Engine.enqueue,idle,hn]
    · exact h.elapsing key depth ho (hmem.mp hm)
  | synced | addNorthbound => exact h.of_eq rfl rfl rfl rfl

theorem Run.timely {e₀ : Engine A N} {p : Phase} (fresh : e₀.Fresh) (only : SchedulerOnly A host)
    (avoid : e₀.CommandsIn (Command.Avoids own)) (run : Run π host ⟨e₀,p⟩ c) :
    c.engine.Timely own := by
  induction run with
  | refl => exact fresh.timely
  | tail run step ih =>
    exact step.timely only (avoid.of_wiring (Run.wiring run)) (Run.keyed fresh run) ih

end Domiform
