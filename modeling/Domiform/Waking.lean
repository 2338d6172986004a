import Domiform.Adapters.Southbound
import Domiform.Engine.Elapsing
import Domiform.RestApi

/-! Waking up. The host sleeps as long as the engine says nothing is due: a minimum over the pending
timers and the clock, which must be neither late nor early. -/
namespace Domiform
open Library Relation

namespace Engine
variable {A N : Type} [Adapter A] [NorthboundAdapter N]

/-- The smallest delay after which some adapter wants a tick. -/
def nextWakeDelay (π : HashOrder) (e : Engine A N) : Option Millis :=
  ((e.adapters.scheduler.nextWake π e.trace.length e.now).toList ++
    e.adapters.rest.filterMap (fun a => Adapter.nextWake a e.now) ++
    e.northbound.filterMap fun nb : Northbound N => Adapter.nextWake nb.adapter e.now).min?

/-- What the ticks of an advance produce; the queue of a quiescent engine holds nothing else. -/
def produced (π : HashOrder) (e : Engine A N) (dt : Millis) : List Event :=
  (((e.elapse dt).tickAdapters π).queue).map Prod.fst

section Moves
variable {user : Command → Prop} {again : TimerKey → Prop} {e e' : Engine A N}

omit [NorthboundAdapter N] in
/-- What dispatching keeps of every adapter, a device command keeps. -/
theorem dispatchDevice_keeps {Q : A → Prop}
    (keep : ∀ a cmd now, Q a → Q (Adapter.dispatch a cmd now).2) {cmd : Command}
    {attempt depth : ℕ} {origin : Option ℕ} (h : dispatchDevice cmd attempt origin depth e = .ok e')
    (hq : ∀ a ∈ e.adapters.rest, Q a) : ∀ a ∈ e'.adapters.rest, Q a := by
  obtain hr | ⟨i,a,now,ha,hr⟩ := dispatchDevice_rest h
  · rw [hr]
    exact hq
  · intro b hb
    rw [hr] at hb
    rcases List.mem_or_eq_of_mem_set hb with hb | rfl
    · exact hq b hb
    · exact keep a cmd now (hq a (List.mem_of_getElem? ha))

/-- What dispatching keeps of every adapter, a move keeps. -/
theorem Move.rest {Q : A → Prop} (keep : ∀ a cmd now, Q a → Q (Adapter.dispatch a cmd now).2)
    (keyed : e.Keyed) (hm : Move user again e e') (hq : ∀ a ∈ e.adapters.rest, Q a) :
    ∀ a ∈ e'.adapters.rest, Q a := by
  cases hm with
  | notice | firing | elapse | timer => exact hq
  | fold ev => cases ev <;> exact hq
  | refan device kind =>
    unfold Engine.refan
    split <;> exact hq
  | cancel rule =>
    unfold Engine.cancelForTimer
    split <;> exact hq
  | arm rule after =>
    unfold Engine.armForTimer
    split <;> exact hq
  | device cmd depth target e' hd => exact dispatchDevice_keeps keep hd hq
  | retry fuel key p may pending e' hd =>
    obtain ⟨cmd,-,-,hd⟩ := retry_dispatched keyed pending hd
    exact dispatchDevice_keeps keep hd hq

theorem Move.now (keyed : e.Keyed) (hm : Move user again e e') : e'.now = e.now := by
  cases hm with
  | notice | firing | elapse | timer => rfl
  | fold ev => cases ev <;> rfl
  | refan device kind =>
    unfold Engine.refan
    split <;> rfl
  | cancel rule =>
    unfold Engine.cancelForTimer
    split <;> rfl
  | arm rule after =>
    unfold Engine.armForTimer
    split <;> rfl
  | device cmd depth target e' hd => exact (dispatchDevice_dispatched hd).now
  | retry fuel key p may pending e' hd =>
    obtain ⟨cmd,-,-,hd⟩ := retry_dispatched keyed pending hd
    exact (dispatchDevice_dispatched hd).now

/-- Times are `u64`s. -/
structure Dated (e : Engine A N) : Prop where
  now_lt : (e.now : ℕ) < 2^64
  due_lt : ∀ key (t : ℕ), e.dueAt key = some t → t < 2^64

omit [Adapter A] [NorthboundAdapter N] in
theorem Dated.of_dueAt (h : e.Dated) (now_eq : e'.now = e.now)
    (due : ∀ key, e'.dueAt key = e.dueAt key ∨ e'.dueAt key = none ∨
      ∃ a b, e'.dueAt key = some (addMillis a b)) : e'.Dated := by
  refine ⟨now_eq ▸ h.now_lt,fun key t ht => ?_⟩
  rcases due key with he | he | ⟨a,b,he⟩
  · exact h.due_lt key t (he ▸ ht)
  · rw [he] at ht
    cases ht
  · rw [he] at ht
    cases ht
    exact Nat.mod_lt _ (by decide)

omit [Adapter A] [NorthboundAdapter N] in
theorem Retried.dated (h : Retried e e') (now_eq : e'.now = e.now) (dated : e.Dated) :
    e'.Dated := by
  refine dated.of_dueAt now_eq fun key => ?_
  unfold Engine.dueAt
  cases h with
  | kept _ _ scheduler =>
    rw [scheduler]
    exact .inl rfl
  | scheduled p delay _ _ _ scheduler =>
    rw [scheduler,HashMap.lookup_insert]
    split_ifs
    · exact .inr (.inr ⟨_,_,rfl⟩)
    · exact .inl rfl

theorem Move.dated (keyed : e.Keyed) (hm : Move user again e e') (dated : e.Dated) : e'.Dated := by
  have hnow := hm.now keyed
  cases hm with
  | notice | firing | elapse => exact dated.of_dueAt rfl fun _ => .inl rfl
  | fold ev => cases ev <;> exact dated.of_dueAt rfl fun _ => .inl rfl
  | refan device kind =>
    unfold Engine.refan
    split <;> exact dated.of_dueAt rfl fun _ => .inl rfl
  | cancel rule =>
    refine dated.of_dueAt hnow fun key => ?_
    rw [cancelForTimer_dueAt]
    split_ifs
    · exact .inr (.inl rfl)
    · exact .inl rfl
  | arm rule after =>
    refine dated.of_dueAt hnow fun key => ?_
    rw [armForTimer_dueAt]
    split_ifs
    · exact .inr (.inr ⟨_,_,rfl⟩)
    · exact .inr (.inl rfl)
    · exact .inl rfl
  | timer cmd timer _ =>
    refine dated.of_dueAt rfl fun key => ?_
    cases cmd with
    | scheduleTimer k after =>
      have hl := SchedulerAdapter.lookup_scheduleTimer e.adapters.scheduler k key after e.now
      by_cases hk : key = k
      · exact .inr (.inr ⟨_,_,hl.trans (if_pos hk)⟩)
      · exact .inl (hl.trans (if_neg hk))
    | cancelTimer k =>
      have hl := SchedulerAdapter.lookup_cancelTimer e.adapters.scheduler k key e.now
      by_cases hk : key = k
      · exact .inr (.inl (hl.trans (if_pos hk)))
      · exact .inl (hl.trans (if_neg hk))
    | _ => cases timer
  | device cmd depth target e' hd =>
    exact (dispatchDevice_retried target hd).dated (dispatchDevice_dispatched hd).now dated
  | retry fuel key p may pending e' hd =>
    obtain ⟨cmd,target,-,hd⟩ := retry_dispatched keyed pending hd
    have hd' : ({ e with retries := e.retries.erase key }.notify
        (.commandDispatched cmd 0)).Dated := dated.of_dueAt rfl fun _ => .inl rfl
    exact (dispatchDevice_retried target hd).dated (dispatchDevice_dispatched hd).now hd'

theorem Dated.moves (dated : e.Dated) (keyed : e.Keyed) (hm : Moves user again e e') :
    e'.Dated := by
  have inv : e'.Keyed ∧ e'.Dated := by
    induction hm with
    | refl => exact ⟨keyed,dated⟩
    | tail _ hm ih => exact ⟨ih.1.move hm,hm.dated ih.1 ih.2⟩
  exact inv.2

theorem Dated.tick (π : HashOrder) (dated : e.Dated) : (e.tickAdapters π).Dated := by
  refine dated.of_dueAt rfl fun key => ?_
  rw [tickAdapters_dueAt]
  split_ifs
  · exact .inr (.inl rfl)
  · exact .inl rfl

end Moves

omit [Adapter A] [NorthboundAdapter N] in
theorem Fresh.dated {e : Engine A N} (h : e.Fresh) (now_lt : (e.now : ℕ) < 2^64) : e.Dated := by
  refine ⟨now_lt,fun key t ht => ?_⟩
  have hs : e.adapters.scheduler = ⟨∅⟩ := congrArg Timers.scheduler h.timers
  rw [dueAt,hs] at ht
  cases ht

end Engine

section Dated
variable {A N : Type} [Adapter A] [NorthboundAdapter N] {π : HashOrder} {host : Host N}
  {c c' : Config A N}

theorem Step.dated (step : Step π host c c') (keyed : c.engine.Keyed) (h : c.engine.Dated) :
    c'.engine.Dated := by
  cases step with
  | start => exact Engine.Dated.tick π (h.of_dueAt rfl fun _ => .inl rfl)
  | synced | inject | addNorthbound => exact h.of_dueAt rfl fun _ => .inl rfl
  | @advance e p dt =>
    have he : (e.elapse dt).Dated := ⟨Nat.mod_lt _ (by decide),h.due_lt⟩
    exact he.tick π
  | @process e e' p ev depth rest fuel next hp =>
    have hq : ({ e with queue := rest } : Engine A N).Keyed := keyed.of_eq rfl rfl rfl rfl
    have hd : ({ e with queue := rest } : Engine A N).Dated := h.of_dueAt rfl fun _ => .inl rfl
    exact hd.moves hq (Engine.moves_of_process hp)

theorem Run.dated {e₀ : Engine A N} {p : Phase} (fresh : e₀.Fresh) (now_lt : (e₀.now : ℕ) < 2^64)
    (run : Run π host ⟨e₀,p⟩ c) : c.engine.Dated := by
  induction run with
  | refl => exact fresh.dated now_lt
  | tail run step ih => exact step.dated (Run.keyed fresh run) ih

end Dated

/-- The scheduler has something to report at the time it states, and not before. -/
theorem SchedulerAdapter.wakes {s : SchedulerAdapter} {now : ℕ} (now_lt : now < 2^64)
    (due_lt : ∀ key (t : ℕ), s.pending.lookup key = some t → t < 2^64) (π : HashOrder) (n m : ℕ) :
    WakesAt (fun dt => (s.tick π m (addMillis now dt)).1 ≠ []) (s.nextWake π n now) := by
  have hdue (dt : ℕ) : (s.tick π m (addMillis now dt)).1 ≠ [] ↔
      ∃ key, ∃ t : ℕ, s.pending.lookup key = some t ∧ t ≤ addMillis now dt := by
    rw [tick,Ne,List.map_eq_nil_iff,List.eq_nil_iff_forall_not_mem]
    simp only [mem_due_keys,not_forall,not_not]
  have hmem (t : ℕ) : t ∈ (HashMap.iter π n s.pending).map Prod.snd ↔
      ∃ key, s.pending.lookup key = some t := by
    simp only [List.mem_map,Prod.exists,HashMap.mem_iter]
    exact ⟨fun ⟨key,_,h,he⟩ => ⟨key,he ▸ h⟩,fun ⟨key,h⟩ => ⟨key,t,h,rfl⟩⟩
  have hleast (least : ℕ) (hm : ((HashMap.iter π n s.pending).map Prod.snd).min? = some least) :
      WakesAt (fun dt => (s.tick π m (addMillis now dt)).1 ≠ []) (some (least-now)) := by
    obtain ⟨hin,hle⟩ := List.min?_eq_some_iff.mp hm
    obtain ⟨key,hl⟩ := (hmem least).mp hin
    have hlt := due_lt key least hl
    constructor
    · intro dt hdt hd
      obtain ⟨key',t,hl',ht⟩ := (hdue dt).mp hd
      have hle' : least ≤ t := hle t ((hmem t).mpr ⟨key',hl'⟩)
      have hfits : now+dt < 2^64 := by omega
      rw [addMillis_of_lt hfits] at ht
      omega
    · refine (hdue _).mpr ⟨key,least,hl,?_⟩
      have hfits : now+(least-now) < 2^64 := by omega
      rw [addMillis_of_lt hfits]
      omega
  rw [nextWake]
  cases hm : ((HashMap.iter π n s.pending).map Prod.snd).min? with
  | none =>
    rw [List.min?_eq_none_iff] at hm
    rw [Option.map_none]
    intro dt hd
    obtain ⟨key,t,hl,-⟩ := (hdue dt).mp hd
    have ht := (hmem t).mpr ⟨key,hl⟩
    rw [hm] at ht
    cases ht
  | some least => exact hleast least hm

/-! ### Silence -/

/-- From here on, no message arrives. -/
def MqttTransport.Silent {T : Type} [MqttTransport T] (t : T) : Prop :=
  ∃ S : T → Prop, S t ∧ ∀ t, S t → (poll t).1 = [] ∧ S (poll t).2 ∧
    ∀ topic payload, S (publish t topic payload).2

def MatterController.Silent {C : Type} [MatterController C] (c : C) : Prop :=
  ∃ S : C → Prop, S c ∧ ∀ c, S c → (poll c).1 = [] ∧ S (poll c).2

def ZwaveClient.Silent {Z : Type} [ZwaveClient Z] (z : Z) : Prop :=
  ∃ S : Z → Prop, S z ∧ ∀ z, S z → (poll z).1 = [] ∧ S (poll z).2

namespace SouthboundAdapter
variable {T C Z : Type} [MqttTransport T] [MatterController C] [ZwaveClient Z]

/-- The transport of the adapter, if it has one, is silent. -/
def Silent : SouthboundAdapter T C Z → Prop
  | zigbee2mqtt a => MqttTransport.Silent a.transport
  | matter a => MatterController.Silent a.controller
  | zwavejs a => ZwaveClient.Silent a.client
  | virtual _ | mock _ | clock _ => True

def isClock : SouthboundAdapter T C Z → Bool
  | clock _ => true
  | _ => false

/-- Priming publishes, and that breaks no silence. -/
theorem prime_silent {a : Zigbee2MqttAdapter T} (h : MqttTransport.Silent a.transport) :
    MqttTransport.Silent a.prime.transport := by
  obtain ⟨S,hs,hstep⟩ := h
  refine ⟨S,?_,hstep⟩
  have hfold (t : T) (ht : S t) : S (a.primeRequests.foldl
      (fun t x => (MqttTransport.publish t x.1 x.2).2) t) := by
    induction a.primeRequests generalizing t with
    | nil => exact ht
    | cons x xs ih => exact ih _ ((hstep t ht).2.2 x.1 x.2)
  unfold Zigbee2MqttAdapter.prime
  split_ifs
  · exact hs
  · exact hfold _ hs

/-- All but the clock stay silent, and ask for no tick. -/
theorem silent_tick {a : SouthboundAdapter T C Z} (h : a.Silent) (other : a.isClock = false)
    (now : Millis) : (a.tick now).1 = [] ∧ (a.tick now).2.Silent ∧
      (a.tick now).2.isClock = false ∧ a.nextWake now = none := by
  cases a with
  | virtual a => exact ⟨rfl,trivial,rfl,rfl⟩
  | mock a => exact ⟨rfl,trivial,rfl,rfl⟩
  | zigbee2mqtt a =>
    obtain ⟨S,hs,hstep⟩ := prime_silent h
    obtain ⟨hpoll,hnext,-⟩ := hstep _ hs
    refine ⟨?_,⟨S,hnext,hstep⟩,rfl,rfl⟩
    change (MqttTransport.poll a.prime.transport).1.flatMap _ = []
    rw [hpoll,List.flatMap_nil]
  | matter a =>
    obtain ⟨S,hs,hstep⟩ := h
    obtain ⟨hpoll,hnext⟩ := hstep _ hs
    have ht : a.tick = ([],{ a with controller := (MatterController.poll a.controller).2 }) := by
      rw [MatterAdapter.tick,hpoll]
      rfl
    change a.tick.1 = [] ∧ MatterController.Silent a.tick.2.controller ∧ _
    rw [ht]
    exact ⟨rfl,⟨S,hnext,hstep⟩,rfl,rfl⟩
  | zwavejs a =>
    obtain ⟨S,hs,hstep⟩ := h
    obtain ⟨hpoll,hnext⟩ := hstep _ hs
    refine ⟨?_,⟨S,hnext,hstep⟩,rfl,rfl⟩
    change (ZwaveClient.poll a.client).1.flatMap _ = []
    rw [hpoll,List.flatMap_nil]
  | clock a => cases other

/-- A clock keeps its timezone and is settled by every tick; no other adapter becomes one. -/
theorem clock_of_tick {a : SouthboundAdapter T C Z} {now : Millis} {c : ClockAdapter}
    (h : (a.tick now).2 = clock c) : c.Settled now := by
  cases a with
  | clock a =>
    cases h
    exact a.tick_settled now
  | _ => cases h

theorem clock_of_dispatch {a : SouthboundAdapter T C Z} {cmd : Command} {now : Millis}
    {c : ClockAdapter} (h : (a.dispatch cmd now).2 = clock c) : a = clock c := by
  cases a with
  | clock a => exact h
  | _ => cases h

end SouthboundAdapter

/-- The northbound adapters of the repository, with nothing queued by their consumers. -/
def NorthboundSilent : RestApiAdapter ⊕ MockNorthbound → Prop
  | .inl a => ∀ batch ∈ a.inbound, batch = []
  | .inr m => m.pendingWrites = [] ∧ m.pendingScenes = []

theorem northboundSilent_tick {n : RestApiAdapter ⊕ MockNorthbound} (h : NorthboundSilent n)
    (now : Millis) : (Adapter.tick n now).1 = [] ∧ NorthboundSilent (Adapter.tick n now).2 ∧
      Adapter.nextWake n now = none := by
  cases n with
  | inl a =>
    obtain ⟨shared,inbound⟩ := a
    cases inbound with
    | nil => exact ⟨rfl,h,rfl⟩
    | cons batch rest =>
      obtain rfl : batch = [] := h batch List.mem_cons_self
      exact ⟨rfl,fun b hb => h b (List.mem_cons_of_mem _ hb),rfl⟩
  | inr m =>
    obtain ⟨mirrored,writes,scenes⟩ := m
    obtain ⟨hw,hs⟩ := h
    dsimp only at hw hs
    subst hw hs
    exact ⟨rfl,⟨rfl,rfl⟩,rfl⟩

section House
variable {T C Z : Type} [MqttTransport T] [MatterController C] [ZwaveClient Z] {π : HashOrder}

/-- An engine over the repository's adapters. -/
abbrev HouseEngine (T C Z : Type) : Type :=
  Engine (SouthboundAdapter T C Z) (RestApiAdapter ⊕ MockNorthbound)

namespace Engine
variable {e e' : HouseEngine T C Z}

/-- Every clock has ticked at the present. -/
def ClocksSettled (e : HouseEngine T C Z) : Prop :=
  ∀ a ∈ e.adapters.rest, ∀ c, a = .clock c → c.Settled e.now

/-- No transport says anything more, and no consumer either. -/
structure Silent (e : HouseEngine T C Z) : Prop where
  adapters : ∀ a ∈ e.adapters.rest, a.Silent
  northbound : ∀ nb ∈ e.northbound, NorthboundSilent nb.adapter

theorem ClocksSettled.tick (e : HouseEngine T C Z) : (e.tickAdapters π).ClocksSettled := by
  intro a ha c hc
  obtain ⟨b,-,rfl⟩ := List.mem_map.mp ha
  exact SouthboundAdapter.clock_of_tick hc

theorem ClocksSettled.moves {user : Command → Prop} {again : TimerKey → Prop}
    (h : e.ClocksSettled) (keyed : e.Keyed) (hm : Moves user again e e') : e'.ClocksSettled := by
  have inv : e'.Keyed ∧ e'.now = e.now ∧
      ∀ a ∈ e'.adapters.rest, ∀ c, a = .clock c → c.Settled e.now := by
    induction hm with
    | refl => exact ⟨keyed,rfl,h⟩
    | tail _ hm ih =>
      obtain ⟨hk,hn,hr⟩ := ih
      refine ⟨hk.move hm,(hm.now hk).trans hn,hm.rest (fun a cmd now ha c hc => ?_) hk hr⟩
      exact ha c (SouthboundAdapter.clock_of_dispatch hc)
  intro a ha c hc
  rw [inv.2.1]
  exact inv.2.2 a ha c hc

/-- A tick produces something when one of the adapters does. -/
theorem produced_ne_nil_iff (idle : e.queue = []) (dt : Millis) : e.produced π dt ≠ [] ↔
    (e.adapters.scheduler.tick π (e.trace.length+1) (addMillis e.now dt)).1 ≠ [] ∨
      (∃ a ∈ e.adapters.rest, (Adapter.tick a (addMillis e.now dt)).1 ≠ []) ∨
      ∃ nb ∈ e.northbound, (Adapter.tick nb.adapter (addMillis e.now dt)).1 ≠ [] := by
  have hq : (e.elapse dt).queue = [] := idle
  rw [produced,tickAdapters_queue,hq,List.nil_append,Ne,List.map_eq_nil_iff,List.map_eq_nil_iff,
    List.append_eq_nil_iff,heard,List.append_eq_nil_iff,List.flatMap_eq_nil_iff,
    List.flatMap_eq_nil_iff]
  simp only [not_and_or,not_forall,exists_prop]
  rfl

/-- The engine states when something is due: the least of what its adapters state. -/
theorem wakes (π : HashOrder) (idle : e.queue = []) (dated : e.Dated) (clocks : e.ClocksSettled)
    (silent : e.Silent) (regular : ∀ c, .clock c ∈ e.adapters.rest → c.tz.Regular)
    (room : ∀ c, .clock c ∈ e.adapters.rest → (e.now : ℕ)+60000 < 2^64) :
    WakesAt (fun dt => e.produced π dt ≠ []) (e.nextWakeDelay π) := by
  -- every adapter with what it is due and the delay it states
  let ofAdapter (a : SouthboundAdapter T C Z) : (ℕ → Prop) × Option ℕ :=
    (fun dt => (Adapter.tick a (addMillis e.now dt)).1 ≠ [],Adapter.nextWake a e.now)
  let ofNorthbound (nb : Northbound (RestApiAdapter ⊕ MockNorthbound)) : (ℕ → Prop) × Option ℕ :=
    (fun dt => (Adapter.tick nb.adapter (addMillis e.now dt)).1 ≠ [],
      Adapter.nextWake nb.adapter e.now)
  let scheduler : (ℕ → Prop) × Option ℕ :=
    (fun dt => (e.adapters.scheduler.tick π (e.trace.length+1) (addMillis e.now dt)).1 ≠ [],
      e.adapters.scheduler.nextWake π e.trace.length e.now)
  let sources := scheduler :: (e.adapters.rest.map ofAdapter ++ e.northbound.map ofNorthbound)
  have hmin : e.nextWakeDelay π = (sources.filterMap Prod.snd).min? := by
    rw [nextWakeDelay,List.append_assoc]
    simp only [sources,List.filterMap_cons,List.filterMap_append,List.filterMap_map]
    cases hs : e.adapters.scheduler.nextWake π e.trace.length e.now with
    | none =>
      simp only [scheduler,hs]
      rfl
    | some d =>
      simp only [scheduler,hs]
      rfl
  have hdue (dt : ℕ) : e.produced π dt ≠ [] ↔ ∃ x ∈ sources, x.1 dt := by
    rw [produced_ne_nil_iff idle]
    simp only [sources,List.mem_cons,List.mem_append,List.mem_map]
    constructor
    · rintro (h | ⟨a,ha,h⟩ | ⟨nb,hnb,h⟩)
      · exact ⟨_,.inl rfl,h⟩
      · exact ⟨_,.inr (.inl ⟨a,ha,rfl⟩),h⟩
      · exact ⟨_,.inr (.inr ⟨nb,hnb,rfl⟩),h⟩
    · rintro ⟨_,rfl | ⟨a,ha,rfl⟩ | ⟨nb,hnb,rfl⟩,h⟩
      · exact .inl h
      · exact .inr (.inl ⟨a,ha,h⟩)
      · exact .inr (.inr ⟨nb,hnb,h⟩)
  rw [hmin]
  refine (WakesAt.of_min (fun x dt => x.1 dt) fun x hx => ?_).congr fun dt _ => (hdue dt).symm
  rcases List.mem_cons.mp hx with rfl | hx
  · exact e.adapters.scheduler.wakes dated.now_lt dated.due_lt π _ _
  rcases List.mem_append.mp hx with hx | hx
  · obtain ⟨a,ha,rfl⟩ := List.mem_map.mp hx
    cases hc : a.isClock with
    | true =>
      cases a with
      | clock c =>
        refine ((clocks _ ha c rfl).wakes (regular c ha)).congr fun dt hle => ?_
        have hfits : (e.now : ℕ)+dt < 2^64 := by
          cases hn : c.nextWake e.now with
          | none => cases hn
          | some d =>
            have hd : (d : ℕ) ≤ 60000 := ClockAdapter.nextWake_le hn
            have hdt : dt ≤ (d : ℕ) := hle d hn
            exact lt_of_le_of_lt (Nat.add_le_add_left (hdt.trans hd) _) (room c ha)
        change _ ↔ (c.tick (addMillis e.now dt)).1 ≠ []
        rw [addMillis_of_lt hfits]
      | _ => cases hc
    | false =>
      have hq (now : Millis) := SouthboundAdapter.silent_tick (silent.adapters a ha) hc now
      have hw : (ofAdapter a).2 = none := (hq e.now).2.2.2
      rw [hw]
      exact fun dt h => h (hq _).1
  · obtain ⟨nb,hnb,rfl⟩ := List.mem_map.mp hx
    have hq (now : Millis) := northboundSilent_tick (silent.northbound nb hnb) now
    have hw : (ofNorthbound nb).2 = none := (hq e.now).2.2
    rw [hw]
    exact fun dt h => h (hq _).1

theorem clock_wakes (π : HashOrder) {c : ClockAdapter} (h : .clock c ∈ e.adapters.rest) :
    e.nextWakeDelay π ≠ none := by
  intro hn
  rw [nextWakeDelay,List.min?_eq_none_iff,List.append_eq_nil_iff,List.append_eq_nil_iff] at hn
  have hc : c.nextWake e.now ∈ e.adapters.rest.map fun a => Adapter.nextWake a e.now :=
    List.mem_map.mpr ⟨_,h,rfl⟩
  obtain ⟨d,hd⟩ : ∃ d, c.nextWake e.now = some d := ⟨_,rfl⟩
  have hmem : d ∈ e.adapters.rest.filterMap fun a => Adapter.nextWake a e.now :=
    List.mem_filterMap.mpr ⟨_,h,hd⟩
  rw [hn.1.2] at hmem
  cases hmem

/-- Nothing is queued, pending or ticking, and nobody will say anything. -/
structure Asleep (e : HouseEngine T C Z) : Prop where
  idle : e.queue = []
  unscheduled : ∀ key, e.dueAt key = none
  silent : e.Silent
  clockless : ∀ a ∈ e.adapters.rest, a.isClock = false

theorem asleep_of_wakes (idle : e.queue = []) (silent : e.Silent)
    (h : e.nextWakeDelay π = none) : e.Asleep := by
  refine ⟨idle,fun key => ?_,silent,fun a ha => ?_⟩
  · rw [nextWakeDelay,List.min?_eq_none_iff,List.append_eq_nil_iff,List.append_eq_nil_iff,
      Option.toList_eq_nil_iff,SchedulerAdapter.nextWake,Option.map_eq_none_iff,
      List.min?_eq_none_iff,List.map_eq_nil_iff] at h
    cases hl : e.dueAt key with
    | none => rfl
    | some t =>
      have hm : (key,t) ∈ HashMap.iter π e.trace.length e.adapters.scheduler.pending :=
        HashMap.mem_iter.mpr hl
      rw [h.1.1] at hm
      cases hm
  · cases a with
    | clock c => exact absurd h (clock_wakes π ha)
    | _ => rfl

namespace Asleep

theorem produced (h : e.Asleep) (dt : Millis) : e.produced π dt = [] := by
  by_contra hp
  rcases (produced_ne_nil_iff h.idle dt).mp hp with hs | ⟨a,ha,hq⟩ | ⟨nb,hnb,hq⟩
  · rw [SchedulerAdapter.tick,Ne,List.map_eq_nil_iff,List.eq_nil_iff_forall_not_mem] at hs
    simp only [SchedulerAdapter.mem_due_keys,not_forall,not_not] at hs
    obtain ⟨key,t,hl,-⟩ := hs
    cases hl.symm.trans (h.unscheduled key)
  · exact hq (SouthboundAdapter.silent_tick (h.silent.adapters a ha) (h.clockless a ha) _).1
  · exact hq (northboundSilent_tick (h.silent.northbound nb hnb) _).1

theorem tick (h : e.Asleep) (dt : Millis) : ((e.elapse dt).tickAdapters π).Asleep := by
  refine ⟨?_,fun key => ?_,⟨fun a ha => ?_,fun nb hnb => ?_⟩,fun a ha => ?_⟩
  · exact List.map_eq_nil_iff.mp (h.produced dt)
  · rw [tickAdapters_dueAt]
    split_ifs
    · rfl
    · exact h.unscheduled key
  · obtain ⟨b,hb,rfl⟩ := List.mem_map.mp ha
    exact (SouthboundAdapter.silent_tick (h.silent.adapters b hb) (h.clockless b hb) _).2.1
  · obtain ⟨b,hb,rfl⟩ := List.mem_map.mp hnb
    exact (northboundSilent_tick (h.silent.northbound b hb) _).2.1
  · obtain ⟨b,hb,rfl⟩ := List.mem_map.mp ha
    exact (SouthboundAdapter.silent_tick (h.silent.adapters b hb) (h.clockless b hb) _).2.2.1

/-- Advancing does not wake it. -/
theorem advance (h : e.Asleep) {fuel : ℕ} {dt : Millis}
    (he : Engine.advance π fuel dt e = .ok e') : e'.Asleep := by
  have ht : ((e.elapse dt).tickAdapters π).Asleep := h.tick dt
  rw [Engine.advance] at he
  cases fuel with
  | zero => cases he
  | succ fuel =>
    rw [drain,ht.idle] at he
    cases he
    exact ht

end Asleep

/-- The host lets time pass, as often as it likes. -/
abbrev Advances (π : HashOrder) : HouseEngine T C Z → HouseEngine T C Z → Prop :=
  ReflTransGen fun e e' => ∃ fuel dt, Engine.advance π fuel dt e = .ok e'

theorem Asleep.advances (h : e.Asleep) (hs : Advances π e e') : e'.Asleep := by
  induction hs with
  | refl => exact h
  | tail _ step ih =>
    obtain ⟨fuel,dt,he⟩ := step
    exact ih.advance he

end Engine

variable {host : Host (RestApiAdapter ⊕ MockNorthbound)}
  {c c' : Config (SouthboundAdapter T C Z) (RestApiAdapter ⊕ MockNorthbound)}

/-- From the first tick on, the clocks are settled between any two steps. -/
theorem Step.clocks (step : Step π host c c') (keyed : c.engine.Keyed)
    (h : c.phase ≠ .wired → c.engine.ClocksSettled) (started : c'.phase ≠ .wired) :
    c'.engine.ClocksSettled := by
  cases step with
  | @start e => exact Engine.ClocksSettled.tick (e.record .started)
  | synced => exact h (by rintro ⟨⟩)
  | inject | addNorthbound => exact h started
  | @advance e p dt => exact Engine.ClocksSettled.tick (e.elapse dt)
  | @process e e' p ev depth rest fuel next hp =>
    have hq : ({ e with queue := rest } : HouseEngine T C Z).Keyed := keyed.of_eq rfl rfl rfl rfl
    have hc : ({ e with queue := rest } : HouseEngine T C Z).ClocksSettled := h started
    exact hc.moves hq (Engine.moves_of_process hp)

theorem Run.clocks {e₀ : HouseEngine T C Z} (fresh : e₀.Fresh) (run : Run π host ⟨e₀,.wired⟩ c)
    (started : c.phase ≠ .wired) : c.engine.ClocksSettled := by
  induction run with
  | refl => exact absurd rfl started
  | tail run step ih => exact step.clocks (Run.keyed fresh run) ih started

/-- The host never oversleeps: between its calls nothing is due before the delay the engine states,
something is due then, and without a delay no advance ever yields an event. The wall clock is
assumed to stay within the dates there are. -/
theorem host_never_oversleeps {e₀ : HouseEngine T C Z} (fresh : e₀.Fresh)
    (now_lt : (e₀.now : ℕ) < 2^64) (run : Run π host ⟨e₀,.wired⟩ c)
    (started : ∃ registered, c.phase = .running registered) (idle : c.engine.queue = [])
    (silent : c.engine.Silent)
    (regular : ∀ clock, .clock clock ∈ c.engine.adapters.rest → clock.tz.Regular)
    (dates : ∀ clock, .clock clock ∈ c.engine.adapters.rest → ∀ d,
      c.engine.nextWakeDelay π = some d → clock.Representable (c.engine.now+d)) :
    (∀ d, c.engine.nextWakeDelay π = some d →
      (∀ dt < d, c.engine.produced π dt = []) ∧ c.engine.produced π d ≠ []) ∧
    (c.engine.nextWakeDelay π = none →
      ∀ e, c.engine.Advances π e → ∀ dt, e.produced π dt = []) := by
  have hclocks : c.engine.ClocksSettled := Run.clocks fresh run (by
    obtain ⟨registered,hp⟩ := started
    rw [hp]
    rintro ⟨⟩)
  have hroom (clock : ClockAdapter) (h : .clock clock ∈ c.engine.adapters.rest) :
      (c.engine.now : ℕ)+60000 < 2^64 := by
    obtain ⟨d,hd⟩ := Option.ne_none_iff_exists'.mp (Engine.clock_wakes π h)
    obtain ⟨hboot,hwall⟩ := dates clock h d hd
    simp only [ClockAdapter.wallUtc,ClockAdapter.minUtc,ClockAdapter.maxUtc] at hboot hwall
    have hsum : ((c.engine.now : ℕ) : ℤ)+60000 < 2^64 := by omega
    exact_mod_cast hsum
  have hwakes := Engine.wakes π idle (Run.dated fresh now_lt run) hclocks silent regular
    hroom
  constructor
  · intro d hd
    rw [hd] at hwakes
    exact ⟨fun dt hlt => not_not.mp (hwakes.1 dt hlt),hwakes.2⟩
  · intro hn e hs dt
    exact ((Engine.asleep_of_wakes idle silent hn).advances hs).produced dt

end House

/-! ### A house with a clock and no radio -/

instance : MqttTransport Empty := ⟨nofun,nofun⟩

instance : MatterController Empty := ⟨nofun,nofun⟩

instance : ZwaveClient Empty := ⟨nofun,nofun⟩

/-- Every half minute. -/
def halfMinutely : Cron where
  findNextOccurrence t := some ((t/30000+1)*30000)
  later t next h := by
    cases h
    omega

def clockHouse : HouseEngine Empty Empty Empty :=
  (Engine.new.addAdapter (.clock ((ClockAdapter.new ⟨0⟩ 45000 ⟨fun _ => 3600⟩ none).withSchedules
    [(⟨0⟩,halfMinutely)]))).1

/-- The schedule and the minute come at the same time, after fifteen seconds. -/
theorem clock_house_wakes : ∃ c : Config (SouthboundAdapter Empty Empty Empty)
      (RestApiAdapter ⊕ MockNorthbound), Run .identity .any ⟨clockHouse,.wired⟩ c ∧
    (∀ dt < 15000, c.engine.produced .identity dt = []) ∧
    c.engine.produced .identity 15000 ≠ [] := by
  obtain ⟨e,clock,hstart,hrest,htz,hboot,hnb,hnow,hwake⟩ :
      ∃ e clock, Engine.start .identity 10 clockHouse = .ok e ∧ e.adapters.rest = [.clock clock] ∧
        clock.tz = ⟨fun _ => 3600⟩ ∧ clock.bootEpochMs = 45000 ∧ e.northbound = [] ∧ e.now = 0 ∧
        e.nextWakeDelay .identity = some 15000 := ⟨_,_,rfl,rfl,rfl,rfl,rfl,rfl,rfl⟩
  obtain ⟨hrun,hidle⟩ := start_run .any .wired rfl (by rintro ⟨⟩) hstart
  have hclock (c : ClockAdapter) (h : .clock c ∈ e.adapters.rest) : c = clock := by
    rw [hrest] at h
    cases List.mem_singleton.mp h
    rfl
  have fresh : clockHouse.Fresh := Engine.Fresh.new.addAdapter _
  have hsilent : e.Silent := by
    refine ⟨fun a ha => ?_,fun nb h => ?_⟩
    · rw [hrest] at ha
      cases List.mem_singleton.mp ha
      trivial
    · rw [hnb] at h
      cases h
  have hregular : clock.tz.Regular := by
    rw [htz]
    have honward : ¬(3660 : ℤ) ≡ 3600 [ZMOD 86400] := by decide
    exact ⟨fun _ => ⟨60,rfl⟩,fun _ => rfl,fun _ => honward⟩
  have hmain := host_never_oversleeps fresh (by decide) hrun ⟨_,rfl⟩ hidle hsilent
    (fun c h => by rw [hclock c h]; exact hregular)
    (fun c h d hd => by
      rw [hwake] at hd
      cases hd
      rw [hclock c h,hnow,ClockAdapter.Representable,ClockAdapter.wallUtc,hboot]
      decide)
  exact ⟨_,hrun,hmain.1 _ hwake⟩

end Domiform
