import Domiform.Engine.Marks
import Domiform.Library.Rounds
import Domiform.Termination

/-! The event bus. Whatever an adapter answers and every failure that is given up on enters the queue
at its back and leaves it at its front, once; so one call of the host handles its events generation
by generation, and the backstop cuts off whole generations. -/
namespace Domiform
open Library Relation

/-- The events that come with an entry of the history: the answer of an adapter, or the failure of
a command. -/
def Entry.yielded : Entry → List Event
  | .handed _ _ _ _ (.ok evs) => evs
  | .notice (.commandFailed cmd reason attempts) => [.commandFailed cmd reason attempts]
  | _ => []

/-- One event taken off the queue, and all that came of it before the next one was. -/
structure Episode where
  event : Event
  depth : ℕ
  dropped : Bool
  body : List Entry

namespace Episode

def mark (x : Episode) : Entry :=
  .notice (if x.dropped then .cascadeDropped x.event x.depth else .eventReceived x.event x.depth)

def entries (x : Episode) : List Entry := x.mark :: x.body

def yielded (x : Episode) : List Event := x.body.flatMap Entry.yielded

/-- The event as it was queued, with the events it put on the queue. -/
def item (x : Episode) : (Event × ℕ) × List (Event × ℕ) :=
  ((x.event,x.depth),x.yielded.map fun ev => (ev,x.depth+1))

/-- The backstop drops what lies too deep, and nothing comes of that; and no event is taken off the
queue while another one is handled. -/
structure Sound (bound : ℕ) (x : Episode) : Prop where
  backstop : x.dropped = true ↔ bound < x.depth
  barren : x.dropped = true → x.body = []
  whole : ∀ y ∈ x.body, y.isBus = false

end Episode

namespace Engine
variable {A N : Type}

def yields (e : Engine A N) : List Event := e.trace.flatMap fun x => x.2.yielded

/-- What the history gained in events is what the queue gained. -/
def Accounts (e e' : Engine A N) : Prop := ∃ evs : List Event,
  e'.queue.map Prod.fst = e.queue.map Prod.fst ++ evs ∧ e'.yields = e.yields ++ evs

theorem yields_record (e : Engine A N) (x : Entry) : (e.record x).yields = e.yields ++ x.yielded := by
  rw [yields,record,List.flatMap_append]
  simp [yields]

namespace Accounts
variable {e e' e'' : Engine A N}

theorem of_eq (hq : e'.queue = e.queue) (ht : e'.trace = e.trace) : Accounts e e' :=
  ⟨[],by rw [hq,List.append_nil],by rw [yields,ht,List.append_nil,yields]⟩

theorem refl (e : Engine A N) : Accounts e e := of_eq rfl rfl

theorem trans (h : Accounts e e') (h' : Accounts e' e'') : Accounts e e'' := by
  obtain ⟨evs,hq,hy⟩ := h
  obtain ⟨fvs,hq',hy'⟩ := h'
  exact ⟨evs ++ fvs,by rw [hq',hq,List.append_assoc],by rw [hy',hy,List.append_assoc]⟩

theorem of_record (e : Engine A N) {x : Entry} (h : x.yielded = []) : Accounts e (e.record x) :=
  ⟨[],(List.append_nil _).symm,by rw [yields_record,h]⟩

theorem of_foldl {α : Type} {f : Engine A N → α → Engine A N} (hf : ∀ e a, Accounts e (f e a))
    (xs : List α) (e : Engine A N) : Accounts e (xs.foldl f e) := by
  induction xs generalizing e with
  | nil => exact refl e
  | cons a xs ih => exact (hf e a).trans (ih (f e a))

theorem of_scheduleCommand (e : Engine A N) (cmd : Command) :
    Accounts e (e.scheduleCommand cmd) := by
  have scheduled : Accounts e (e.schedule cmd) := of_eq rfl rfl
  exact scheduled.trans (of_record _ rfl)

/-- Giving up announces the failure that it queues. -/
theorem of_giveUp (e : Engine A N) (cmd : Command) (reason : String) (attempts serial depth : ℕ) :
    Accounts e (e.giveUp cmd reason attempts serial depth) := by
  refine ⟨[.commandFailed cmd reason attempts],by simp [giveUp,enqueue,record,notify],?_⟩
  change ((e.notify (.commandFailed cmd reason attempts)).record (.gaveUp serial)).yields = _
  rw [yields_record,notify,yields_record]
  simp [Entry.yielded]

theorem of_scheduleRetry (e : Engine A N) (cmd : Command) (failedAttempt serial : ℕ) :
    Accounts e (e.scheduleRetry cmd failedAttempt serial) := by
  let e₁ : Engine A N := { e with retryCounter := e.retryCounter+1 }
  have told : Accounts e₁
      (e₁.notify (.retryScheduled cmd (failedAttempt+1) (e.retry.backoff failedAttempt))) :=
    of_record e₁ rfl
  exact told.trans (of_eq rfl rfl)

/-- A failure is retried without a word on the bus, or given up on. -/
theorem of_failed (e : Engine A N) {outcome : DispatchOutcome} (failed : ∀ evs, outcome ≠ .ok evs)
    (cmd : Command) (attempt serial depth : ℕ) :
    Accounts e (e.handleOutcome outcome cmd attempt serial depth) := by
  cases outcome with
  | ok evs => exact absurd rfl (failed evs)
  | transient reason =>
    have told : Accounts e (e.notify (.dispatchFailed cmd reason true attempt)) := of_record e rfl
    simp only [handleOutcome]
    split_ifs
    · exact told.trans (of_scheduleRetry _ _ _ _)
    · exact told.trans (of_giveUp _ _ _ _ _ _)
  | permanent reason =>
    have told : Accounts e (e.notify (.dispatchFailed cmd reason false attempt)) := of_record e rfl
    exact told.trans (of_giveUp _ _ _ _ _ _)

theorem of_issue (e : Engine A N) (cmd : Command) (origin : Option ℕ) :
    Accounts e (e.issue cmd origin).2 := by
  cases origin with
  | some serial => exact refl e
  | none => exact of_record { e with serials := e.serials+1 } rfl

theorem of_armForTimer (e : Engine A N) (rule : RuleId) (after : Millis) :
    Accounts e (e.armForTimer rule after) := by
  refine of_eq ?_ (armForTimer_trace e rule after)
  simp only [armForTimer]
  split <;> rfl

theorem of_cancelForTimer (e : Engine A N) (rule : RuleId) : Accounts e (e.cancelForTimer rule) := by
  refine of_eq ?_ (cancelForTimer_trace e rule)
  simp only [cancelForTimer]
  split <;> rfl

theorem of_considerRules (e : Engine A N) (ev : Event) (prior : Option CapabilityState) :
    Accounts e (e.considerRules ev prior).1 :=
  of_foldl (fun e _ => of_record e rfl) _ e

section Northbound
variable [NorthboundAdapter N]

theorem of_refan (e : Engine A N) (device : DeviceId) (kind : CapabilityKind) :
    Accounts e (e.refan device kind) := by
  simp only [refan]
  split
  · exact of_record e rfl
  · exact refl e

theorem of_foldState (e : Engine A N) (ev : Event) : Accounts e (e.foldState ev) := by
  cases ev with
  | stateReported device state => exact of_record e rfl
  | _ => exact refl e

end Northbound

variable [Adapter A]

/-- An answer is written down with the events that it queues. -/
theorem of_routed {cmd : Command} {attempt serial depth : ℕ}
    (h : Routed cmd attempt serial depth e e') : Accounts e e' := by
  cases h with
  | bound idx outcome adapters =>
    have handed : Accounts e (e.handOver idx cmd adapters) := of_eq rfl rfl
    cases outcome with
    | ok evs =>
      refine ⟨evs,?_,?_⟩
      · simp [handleOutcome,enqueueAll,record,handOver,List.map_map,Function.comp_def]
      · change ((e.handOver idx cmd adapters).record _).yields = _
        rw [yields_record]
        rfl
    | transient | permanent =>
      exact (handed.trans (of_record _ rfl)).trans (of_failed _ (by simp) _ _ _ _)
  | unbound => exact of_failed _ (by simp) _ _ _ _

theorem of_dispatchDevice {cmd : Command} {attempt depth : ℕ} {origin : Option ℕ}
    (h : dispatchDevice cmd attempt origin depth e = .ok e') : Accounts e e' :=
  (of_issue e cmd origin).trans (of_routed (dispatchDevice_routed h))

theorem of_acts {user : Command → Prop} {depth : ℕ} (h : ReflTransGen (Act user depth) e e') :
    Accounts e e' := by
  induction h with
  | refl => exact refl e
  | tail _ act ih =>
    refine ih.trans ?_
    cases act with
    | dispatched | expanded => exact of_record _ rfl
    | timer cmd => exact of_scheduleCommand _ cmd
    | device cmd _ _ h => exact of_dispatchDevice h

theorem of_dispatchAt {fuel attempt depth : ℕ} {cmd : Command} {origin : Option ℕ}
    (h : dispatchAt fuel cmd attempt origin depth e = .ok e') : Accounts e e' := by
  rcases dispatchAt_cases h with ⟨-,h⟩ | h
  · exact (of_record e rfl).trans (of_dispatchDevice h)
  · exact of_acts h

theorem of_fire {fuel depth : ℕ} {rule : Rule} (h : fire fuel rule depth e = .ok e') :
    Accounts e e' :=
  (of_record e rfl).trans (of_acts
    (dispatchAll_acts (fun _ => True) (fun _ _ => trivial) (fun _ _ _ _ _ => trivial) h))

variable [NorthboundAdapter N]

theorem of_react {π : HashOrder} {fuel depth : ℕ} {ev : Event}
    (h : react π fuel ev depth e = .ok e') : Accounts e e' := by
  obtain ⟨e₂,h₂,-,h⟩ := react_cases h
  have hf : Accounts e e₂ := by
    rcases h₂ with rfl | rfl
    · exact of_foldState e ev
    · exact (of_foldState e ev).trans (of_foldl of_cancelForTimer _ _)
  refine runFired_induct (fun r _ after _ b hb => ?_) (fun r _ _ b b' hb hr => ?_) h
    (hf.trans (of_considerRules e₂ ev _))
  · exact hb.trans (of_armForTimer b r.id after)
  · exact hb.trans (of_fire hr)

theorem of_requestChange {fuel depth : ℕ} {device : DeviceId} {desired : Desired}
    (h : requestChange fuel device desired depth e = .ok e') : Accounts e e' := by
  simp only [requestChange] at h
  split at h
  · obtain ⟨e₁,h₁,h₂⟩ := bind_ok_iff.mp h
    cases h₂
    exact (of_dispatchAt h₁).trans (of_refan e₁ device desired.kind)
  · cases h
    exact of_refan e device desired.kind

omit [NorthboundAdapter N] in
theorem of_fireElapsedFor {π : HashOrder} {fuel : ℕ} {key : TimerKey}
    (h : fireElapsedFor π fuel key e = .ok e') : Accounts e e' := by
  obtain rfl | ⟨id,-,h⟩ := fireElapsedFor_cases h
  · exact refl _
  have erased : Accounts e { e with pendingFor := e.pendingFor.erase id } := of_eq rfl rfl
  obtain rfl | ⟨rule,-,-,-,h⟩ := h
  · exact erased
  · exact erased.trans (of_fire h)

/-- Whatever one event does, the bus is not bypassed. -/
theorem of_processed {π : HashOrder} {fuel depth : ℕ} {ev : Event}
    (h : Processed π fuel depth e ev e') : Accounts e e' := by
  have received : Accounts e (e.received ev depth) := of_record e rfl
  cases h with
  | dropped => exact of_record e rfl
  | retried key p e' le pending h =>
    have erased : Accounts (e.received (.timerElapsed key) depth)
        { e.received (.timerElapsed key) depth with retries := e.retries.erase key } := of_eq rfl rfl
    exact (received.trans erased).trans (of_dispatchAt h)
  | elapsed key e' le fresh own h => exact received.trans (of_fireElapsedFor h)
  | changed device desired e' le h => exact received.trans (of_requestChange h)
  | activated scene e' le h => exact received.trans (of_dispatchAt h)
  | reacted ev e' le ordinary report h => exact received.trans (of_react h)

end Accounts
variable [Adapter A] [NorthboundAdapter N]

/-- Only host and clock put timers on the bus, and those start at the surface. -/
def TimersSurface (e : Engine A N) : Prop := ∀ x ∈ e.queue, x.1.isTimerElapsed = true → x.2 = 0

/-- Handling one event is an episode: what it puts on the queue is what it wrote down, one hop
deeper. -/
theorem Processed.episode {π : HashOrder} {fuel depth : ℕ} {ev : Event} {e e' : Engine A N}
    (h : Processed π fuel depth e ev e') (hA : Adapter.DispatchTimerless A)
    (hb : e.maxCascadeDepth+1 < 2^32) (surface : ev.isTimerElapsed = true → depth = 0) :
    ∃ x : Episode, (x.event = ev ∧ x.depth = depth) ∧ x.Sound e.maxCascadeDepth ∧
      e'.trace = e.trace ++ x.entries.map (fun y => (e.now,y)) ∧ e'.queue = e.queue ++ x.item.2 ∧
        ∀ y ∈ x.yielded, y.isTimerElapsed = false := by
  by_cases le : depth ≤ e.maxCascadeDepth
  · obtain ⟨xs,ht,hxs⟩ := h.history le
    obtain ⟨evs,hq,hy⟩ := h.queue le
    have hd : nextDepth (if e.intercepts ev then 0 else depth) = depth+1 := by
      cases hi : e.intercepts ev with
      | true =>
        have hev : ev.isTimerElapsed = true := by
          cases ev <;> first | rfl | simp [intercepts] at hi
        rw [surface hev]
        exact nextDepth_of_le (Nat.zero_le _) hb
      | false => exact nextDepth_of_le le hb
    rw [hd] at hq
    -- the events of the queue are those of the history
    obtain ⟨fvs,hq',hy'⟩ := Accounts.of_processed h
    obtain rfl : evs = fvs := by
      simpa [hq,List.map_map,Function.comp_def] using hq'
    have hevs : xs.flatMap Entry.yielded = evs := by
      have hr : (Entry.notice (.eventReceived ev depth)).yielded = [] := rfl
      simpa [yields,ht,hr,List.flatMap_map] using hy'
    refine ⟨⟨ev,depth,false,xs⟩,⟨rfl,rfl⟩,⟨by simpa using le,by simp,fun y hm => (hxs y hm).1⟩,
      ?_,?_,fun y hm => ?_⟩
    · simpa [Episode.entries,Episode.mark] using ht
    · simpa [Episode.item,Episode.yielded,hevs] using hq
    · rw [Episode.yielded,hevs] at hm
      exact (hy y hm).isTimerElapsed hA
  · cases h with
    | dropped ev deep =>
      refine ⟨⟨ev,depth,true,[]⟩,⟨rfl,rfl⟩,⟨by simpa using deep,by simp,by simp⟩,?_,?_,
        by simp [Episode.yielded]⟩
      · simp [Episode.entries,Episode.mark]
      · simp [Episode.item,Episode.yielded,notify,record]
    | _ => contradiction

/-- What was drained so far, episode by episode. -/
structure Drained (e b : Engine A N) (xs : List Episode) : Prop where
  now : b.now = e.now
  bound : b.maxCascadeDepth = e.maxCascadeDepth
  trace : b.trace = e.trace ++ (xs.flatMap Episode.entries).map fun y => (e.now,y)
  works : Works e.queue (xs.map Episode.item) b.queue
  sound : ∀ x ∈ xs, x.Sound e.maxCascadeDepth
  surface : b.TimersSurface

/-- One event more is one episode more. -/
theorem Drained.step {π : HashOrder} {fuel depth : ℕ} {ev : Event} {rest : List (Event × ℕ)}
    {e b b' : Engine A N} {xs : List Episode} (hA : Adapter.DispatchTimerless A)
    (hb : e.maxCascadeDepth+1 < 2^32) (hd : Drained e b xs) (hq : b.queue = (ev,depth) :: rest)
    (h : process π fuel ev depth { b with queue := rest } = .ok b') : ∃ x, Drained e b' (xs ++ [x]) := by
  have hp := process_processed h
  obtain ⟨x,⟨rfl,rfl⟩,hx,ht,hqx,hy⟩ := hp.episode hA (by rwa [← hd.bound] at hb)
    (hd.surface (ev,depth) (by rw [hq]; exact List.mem_cons_self))
  refine ⟨x,hp.now.trans hd.now,hp.wiring.maxCascadeDepth.trans hd.bound,?_,?_,?_,?_⟩
  · rw [ht]
    change b.trace ++ x.entries.map (fun y => (b.now,y)) = _
    rw [hd.trace,hd.now]
    simp
  · have hw := hd.works
    rw [hq] at hw
    rw [List.map_append,hqx]
    exact hw.trans (.single _ _ _)
  · intro y hm
    rcases List.mem_append.mp hm with hm | hm
    · exact hd.sound y hm
    · rw [List.mem_singleton.mp hm]
      exact hd.bound ▸ hx
  · intro y hm hev
    rw [hqx] at hm
    rcases List.mem_append.mp hm with hm | hm
    · exact hd.surface y (by rw [hq]; exact List.mem_cons_of_mem _ hm) hev
    · obtain ⟨ev',hev',rfl⟩ := List.mem_map.mp hm
      exact absurd hev (by simp [hy ev' hev'])

/-- A queue that is drained is worked item by item, front to back. -/
theorem drain_drained {π : HashOrder} {fuel : ℕ} {e e' : Engine A N} (hA : Adapter.DispatchTimerless A)
    (hb : e.maxCascadeDepth+1 < 2^32) (surface : e.TimersSurface)
    (h : drain π fuel e = .ok e') : e'.queue = [] ∧ ∃ xs, Drained e e' xs := by
  have start : ∃ xs, Drained e e xs := ⟨[],rfl,rfl,by simp,.rest _,by simp,surface⟩
  refine (drain_induct (I := fun b => ∃ xs, Drained e b xs)
    (fun fuel ev depth rest b b' hq hp => ?_) h start).symm
  rintro ⟨xs,hd⟩
  obtain ⟨x,hx⟩ := hd.step hA hb hq hp
  exact ⟨_,hx⟩

end Engine

variable {A N : Type} [Adapter A] [NorthboundAdapter N]

theorem Call.begin_surface (π : HashOrder) {e : Engine A N} (idle : e.queue = []) (call : Call) :
    ∀ x ∈ (call.begin π e).queue, x.2 = 0 := by
  have all {e' : Engine A N} (evs : List Event)
      (h : e'.queue = e.queue ++ evs.map fun ev => (ev,0)) : ∀ x ∈ e'.queue, x.2 = 0 := by
    intro x hx
    rw [h,idle] at hx
    obtain ⟨ev,-,rfl⟩ := List.mem_map.mp hx
    rfl
  cases call with
  | start => exact all _ rfl
  | inject ev => exact all [ev] rfl
  | advance dt => exact all _ rfl

/-- What a call returns is what it drained, up to what the northbound adapters are told at last. -/
theorem Call.run_drain {π : HashOrder} {fuel : ℕ} {e e' : Engine A N} {call : Call}
    (h : call.run π fuel e = .ok e') : ∃ e₁, Engine.drain π fuel (call.begin π e) = .ok e₁ ∧
      e'.trace = e₁.trace ∧ e'.queue = e₁.queue := by
  cases call with
  | start =>
    obtain ⟨e₁,h₁,h₂⟩ := bind_ok_iff.mp h
    cases h₂
    exact ⟨e₁,h₁,rfl,rfl⟩
  | inject ev => exact ⟨e',h,rfl,rfl⟩
  | advance dt => exact ⟨e',h,rfl,rfl⟩

/-- One call handles its events generation by generation: first what the host or the clock put on the
bus, then everything that came of it, and so on, each event once and in the order in which it came
up. The generation of an event is its causal depth, and the backstop cuts off whole generations. -/
theorem calls_are_breadth_first {π : HashOrder} {fuel : ℕ} {e e' : Engine A N}
    (hA : Adapter.DispatchTimerless A) (hb : e.maxCascadeDepth < 2^32-1) (idle : e.queue = [])
    {call : Call} (h : call.run π fuel e = .ok e') : ∃ rounds : List (List Episode),
      e'.queue = [] ∧
      e'.trace = (call.begin π e).trace ++
        (rounds.flatten.flatMap Episode.entries).map (fun y => ((call.begin π e).now,y)) ∧
      Rounds (call.begin π e).queue (rounds.map fun round => round.map Episode.item) ∧
      rounds.length ≤ e.maxCascadeDepth+2 ∧
      ∀ (i : ℕ) (round : List Episode), rounds[i]? = some round → ∀ x ∈ round, x.depth = i ∧
        (x.dropped = true ↔ e.maxCascadeDepth < i) ∧ (x.dropped = true → x.body = []) ∧
          ∀ y ∈ x.body, y.isBus = false := by
  obtain ⟨e₁,h₁,ht,hq⟩ := Call.run_drain h
  have hm : (call.begin π e).maxCascadeDepth = e.maxCascadeDepth := (wiring_begin π e call).maxCascadeDepth
  have surface := call.begin_surface π idle
  obtain ⟨hq₁,xs,hd⟩ := Engine.drain_drained hA (by rw [hm]; omega)
    (fun x hx _ => surface x hx) h₁
  have hw := hd.works
  rw [hq₁] at hw
  obtain ⟨rounds,rfl,hr⟩ := hw.rounds_map
  have sound (i : ℕ) (round : List Episode) (hi : rounds[i]? = some round) :
      ∀ x ∈ round, x.depth = i ∧ x.Sound e.maxCascadeDepth := by
    intro x hx
    refine ⟨?_,hm ▸ hd.sound x (List.mem_flatten.mpr ⟨round,List.mem_of_getElem? hi,hx⟩)⟩
    have hround : (rounds.map (List.map Episode.item))[i]? = some (round.map Episode.item) := by
      rw [List.getElem?_map,hi]
      rfl
    have hdepth := hr.depth (d := Prod.snd) (n := 0) surface ?_ hround x.item (List.mem_map_of_mem hx)
    · simpa [Episode.item] using hdepth
    · intro p hp k hk
      obtain ⟨l,hl,hpl⟩ := List.mem_flatten.mp hp
      obtain ⟨round',-,rfl⟩ := List.mem_map.mp hl
      obtain ⟨y,-,rfl⟩ := List.mem_map.mp hpl
      obtain ⟨ev,-,rfl⟩ := List.mem_map.mp hk
      rfl
  refine ⟨rounds,hq.trans hq₁,ht.trans hd.trace,hr,?_,fun i round hi x hx => ?_⟩
  · have hl := hr.length_le (n := e.maxCascadeDepth+1) ?_
    · simpa using hl
    intro round hround p hp
    rw [List.getElem?_map,Option.map_eq_some_iff] at hround
    obtain ⟨l,hl,rfl⟩ := hround
    obtain ⟨x,hx,rfl⟩ := List.mem_map.mp hp
    obtain ⟨hdepth,hs⟩ := sound _ _ hl x hx
    have hbody := hs.barren (hs.backstop.mpr (by omega))
    simp [Episode.item,Episode.yielded,hbody]
  · obtain ⟨rfl,hs⟩ := sound i round hi x hx
    exact ⟨rfl,hs.backstop,hs.barren,hs.whole⟩
/-- A request for the lamp comes first, and the lamp's answer in the round after it. -/
theorem lamp_call_is_breadth_first : ∃ (e' : Engine VirtualDeviceAdapter MockNorthbound)
    (rounds : List (List Episode)),
      (Call.inject (.requestedChange lamp (.set (.switch true)))).run .identity 9 lampEngine = .ok e' ∧
      Rounds [(.requestedChange lamp (.set (.switch true)),0)]
        (rounds.map fun round => round.map Episode.item) ∧ rounds.length ≤ 34 := by
  obtain ⟨e',h⟩ : ∃ e', (Call.inject (.requestedChange lamp (.set (.switch true)))).run .identity 9
    lampEngine = .ok e' := ⟨_,rfl⟩
  obtain ⟨rounds,-,-,hr,hl,-⟩ := calls_are_breadth_first VirtualDeviceAdapter.dispatchTimerless
    (by decide) rfl h
  exact ⟨e',rounds,h,hr,hl⟩

end Domiform
