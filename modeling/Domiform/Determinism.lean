import Domiform.Engine.Elapsing
import Domiform.Guards
import Domiform.Library.Lockstep
import Domiform.RestApi

/-! Replay. Two engines run over the same inputs while their maps are iterated in different orders;
what they do is the same, up to the order in which the scheduler hears of cancelled waits. -/
namespace Domiform
open Library Relation

/-- What a consumer says does not depend on the order in which it heard the store at startup. -/
structure Indifferent {N : Type} [NorthboundAdapter N] (R : N → N → Prop) : Prop where
  tick : ∀ {a b}, R a b → ∀ now, (Adapter.tick a now).1 = (Adapter.tick b now).1 ∧
    R (Adapter.tick a now).2 (Adapter.tick b now).2
  folded : ∀ {a b}, R a b → ∀ device state,
    R (NorthboundAdapter.stateFolded a device state) (NorthboundAdapter.stateFolded b device state)
  replayed : ∀ {a b}, R a b → ∀ {xs ys : List (DeviceId × CapabilityState)}, xs.Perm ys →
    R (xs.foldl (fun a x => NorthboundAdapter.stateFolded a x.1 x.2) a)
      (ys.foldl (fun a x => NorthboundAdapter.stateFolded a x.1 x.2) b)

/-- Adapters that have heard the same up to a replay. -/
abbrev Northbound.Alike {N : Type} (R : N → N → Prop) :
    List (Northbound N) → List (Northbound N) → Prop :=
  List.Forall₂ fun nb nb' => R nb.adapter nb'.adapter

namespace Indifferent
variable {N : Type} [NorthboundAdapter N] {R : N → N → Prop} {nbs nbs' : List (Northbound N)}

omit [NorthboundAdapter N] in
theorem map (h : Northbound.Alike R nbs nbs') {f g : Northbound N → Northbound N}
    (step : ∀ nb nb' : Northbound N, R nb.adapter nb'.adapter → R (f nb).adapter (g nb').adapter) :
    Northbound.Alike R (nbs.map f) (nbs'.map g) := by
  induction h with
  | nil => exact .nil
  | cons h _ ih => exact .cons (step _ _ h) ih

theorem said (indifferent : Indifferent R) (h : Northbound.Alike R nbs nbs') (now : Millis) :
    nbs.flatMap (fun nb => (nb.tick now).1) = nbs'.flatMap fun nb => (nb.tick now).1 := by
  induction h with
  | nil => rfl
  | @cons nb nb' _ _ h _ ih =>
    have ht : (nb.tick now).1 = (nb'.tick now).1 := (indifferent.tick h now).1
    rw [List.flatMap_cons,List.flatMap_cons,ht,ih]

theorem hear (indifferent : Indifferent R) {nb nb' : Northbound N} (h : R nb.adapter nb'.adapter)
    {xs ys : List (DeviceId × CapabilityState)} (perm : xs.Perm ys) :
    R (nb.hear xs).adapter (nb'.hear ys).adapter := by
  have heard (zs : List (DeviceId × CapabilityState)) (nb : Northbound N) : (nb.hear zs).adapter =
      zs.foldl (fun a x => NorthboundAdapter.stateFolded a x.1 x.2) nb.adapter := by
    induction zs generalizing nb with
    | nil => rfl
    | cons z zs ih => exact ih (nb.stateFolded z.1 z.2)
  rw [heard,heard]
  exact indifferent.replayed h perm

end Indifferent

/-- The scheduler is told to drop the timer of a waiting rule. -/
def CancelsWait (x : Millis × AdapterIdx × Command) : Prop :=
  ∃ now n, x = (now,schedulerIdx,.cancelTimer (Engine.forKey n))

namespace Engine
variable {A N : Type}

/-- Equal engines, up to what the northbound adapters have heard and the order of cancellations. -/
inductive Twin (R : N → N → Prop) (e : Engine A N) : Engine A N → Prop
  | intro (nbs : List (Northbound N)) (ds : List (Millis × AdapterIdx × Command))
      (northbound : Northbound.Alike R e.northbound nbs)
      (dispatches : Reordered CancelsWait e.dispatches ds) :
      Twin R e { e with northbound := nbs,dispatches := ds }

/-- The timers of the rules that wait. -/
def waitKeys (e : Engine A N) (rules : List RuleId) : List TimerKey :=
  rules.filterMap fun rule => (e.pendingFor.lookup rule).map PendingFor.key

/-- Cancelling the timers of waiting rules, one after the other. -/
theorem foldl_cancelForTimer {rules : List RuleId} (nodup : rules.Nodup) (e : Engine A N) :
    rules.foldl cancelForTimer e =
      { e with
        pendingFor := rules.foldl (fun m r => m.erase r) e.pendingFor
        adapters := { e.adapters with
          scheduler := ⟨(e.waitKeys rules).foldl (fun m k => m.erase k) e.adapters.scheduler.pending⟩ }
        dispatches := e.dispatches ++
          (e.waitKeys rules).map fun k => (e.now,schedulerIdx,.cancelTimer k) } := by
  induction rules generalizing e with
  | nil => simp [waitKeys]
  | cons rule rules ih =>
    obtain ⟨hr,hn⟩ := List.nodup_cons.mp nodup
    -- the timers of the others are still where they were
    have hkeys : (e.cancelForTimer rule).waitKeys rules = e.waitKeys rules := by
      refine List.filterMap_congr fun r hm => ?_
      have hne : r ≠ rule := fun he => hr (he ▸ hm)
      rw [cancelForTimer_pendingFor,if_neg hne]
    rw [List.foldl_cons,ih hn,hkeys,List.foldl_cons]
    unfold cancelForTimer
    cases hl : e.pendingFor.lookup rule with
    | none =>
      have he : e.pendingFor.erase rule = e.pendingFor := by
        apply AList.ext
        exact List.kerase_of_notMem_keys (AList.lookup_eq_none.mp hl)
      simp [waitKeys,hl,he]
    | some p =>
      simp [waitKeys,hl,schedule,overflows,SchedulerAdapter.dispatch]

namespace Twin
variable {R : N → N → Prop} {e e' : Engine A N}

theorem same (h : Twin R e e') :
    e' = { e with northbound := e'.northbound,dispatches := e'.dispatches } := by
  cases h
  rfl

theorem record (h : Twin R e e') (x : Entry) : Twin R (e.record x) (e'.record x) := by
  cases h with
  | intro nbs ds hn hd => exact .intro nbs ds hn hd

theorem notify (h : Twin R e e') (n : Notice) : Twin R (e.notify n) (e'.notify n) := h.record _

theorem enqueueAll (h : Twin R e e') (evs : List Event) (depth : ℕ) :
    Twin R (e.enqueueAll evs depth) (e'.enqueueAll evs depth) := by
  cases h with
  | intro nbs ds hn hd => exact .intro nbs ds hn hd

theorem schedule (h : Twin R e e') (cmd : Command) : Twin R (e.schedule cmd) (e'.schedule cmd) := by
  cases h with
  | intro nbs ds hn hd => exact .intro nbs _ hn (hd.concat _)

theorem scheduleCommand (h : Twin R e e') (cmd : Command) :
    Twin R (e.scheduleCommand cmd) (e'.scheduleCommand cmd) := by
  cases h with
  | intro nbs ds hn hd => exact .intro nbs _ hn (hd.concat _)

theorem giveUp (h : Twin R e e') (cmd : Command) (reason : String) (attempts serial depth : ℕ) :
    Twin R (e.giveUp cmd reason attempts serial depth) (e'.giveUp cmd reason attempts serial depth) := by
  cases h with
  | intro nbs ds hn hd => exact .intro nbs ds hn hd

theorem scheduleRetry (h : Twin R e e') (cmd : Command) (failedAttempt serial : ℕ) :
    Twin R (e.scheduleRetry cmd failedAttempt serial) (e'.scheduleRetry cmd failedAttempt serial) := by
  cases h with
  | intro nbs ds hn hd => exact .intro nbs _ hn (hd.concat _)

theorem handleOutcome (h : Twin R e e') (outcome : DispatchOutcome) (cmd : Command)
    (attempt serial depth : ℕ) : Twin R (e.handleOutcome outcome cmd attempt serial depth)
      (e'.handleOutcome outcome cmd attempt serial depth) := by
  cases outcome with
  | ok evs => exact h.enqueueAll evs _
  | transient reason =>
    have hn := h.notify (.dispatchFailed cmd reason true attempt)
    have hr : e'.retry = e.retry := by rw [h.same]
    change Twin R (if attempt < e.retry.maxAttempts then _ else _)
      (if attempt < e'.retry.maxAttempts then _ else _)
    rw [hr]
    split_ifs
    · exact hn.scheduleRetry cmd attempt serial
    · exact hn.giveUp cmd reason attempt serial depth
  | permanent reason => exact (h.notify _).giveUp cmd reason attempt serial depth

theorem issue (h : Twin R e e') (cmd : Command) (origin : Option ℕ) :
    (e'.issue cmd origin).1 = (e.issue cmd origin).1 ∧
      Twin R (e.issue cmd origin).2 (e'.issue cmd origin).2 := by
  cases h with
  | intro nbs ds hn hd =>
    cases origin with
    | none => exact ⟨rfl,.intro nbs ds hn hd⟩
    | some serial => exact ⟨rfl,.intro nbs ds hn hd⟩

theorem resolve (h : Twin R e e') (cmd : Command) :
    e'.resolveImplicitStateCommand cmd = e.resolveImplicitStateCommand cmd := by
  cases h with
  | intro nbs ds hn hd => rfl

theorem foldl {α : Type} {f g : Engine A N → α → Engine A N}
    (step : ∀ x {e e'}, Twin R e e' → Twin R (f e x) (g e' x)) (xs : List α) (h : Twin R e e') :
    Twin R (xs.foldl f e) (xs.foldl g e') := by
  induction xs generalizing e e' with
  | nil => exact h
  | cons x xs ih => exact ih (step x h)

theorem handOver (h : Twin R e e') (idx : AdapterIdx) (cmd : Command) (adapters : AdapterTable A) :
    Twin R (e.handOver idx cmd adapters) (e'.handOver idx cmd adapters) := by
  cases h with
  | intro nbs ds hn hd => exact .intro nbs _ hn (hd.concat _)

section Dispatch
variable [Adapter A]

theorem dispatchDevice (h : Twin R e e') (cmd : Command) (attempt : ℕ) (origin : Option ℕ)
    (depth : ℕ) : Followed (Twin R) (dispatchDevice cmd attempt origin depth e)
      (dispatchDevice cmd attempt origin depth e') := by
  obtain ⟨hs,hi⟩ := h.issue cmd origin
  have hb := congrArg Engine.deviceToAdapter hi.same
  have ht := congrArg Engine.adapters hi.same
  have hn := congrArg Engine.now hi.same
  simp only [Engine.dispatchDevice,hb,ht,hn,hs]
  cases cmd.targetDevice.bind (e.issue cmd origin).2.deviceToAdapter.lookup with
  | none => exact .ok (hi.handleOutcome _ cmd attempt _ depth)
  | some idx =>
    dsimp only
    cases (e.issue cmd origin).2.adapters.dispatch idx cmd (e.issue cmd origin).2.now with
    | none => exact .error
    | some x =>
      obtain ⟨outcome,adapters⟩ := x
      exact .ok (((hi.handOver idx cmd adapters).record _).handleOutcome outcome cmd attempt _ depth)

/-- The second engine may be given more fuel. -/
theorem dispatchAt {fuel fuel' : ℕ} (more : fuel ≤ fuel') (h : Twin R e e') (cmd : Command)
    (attempt : ℕ) (origin : Option ℕ) (depth : ℕ) :
    Followed (Twin R) (dispatchAt fuel cmd attempt origin depth e)
      (dispatchAt fuel' cmd attempt origin depth e') := by
  induction fuel generalizing fuel' cmd attempt origin e e' with
  | zero => exact .error
  | succ fuel ih =>
    obtain ⟨k,rfl⟩ : ∃ k, fuel' = k+1 := ⟨fuel'-1,by omega⟩
    rw [Engine.dispatchAt,Engine.dispatchAt,h.resolve]
    generalize e.resolveImplicitStateCommand cmd = cmd
    have hn := h.notify (.commandDispatched cmd depth)
    have hs := congrArg Engine.scenes hn.same
    cases cmd with
    | activateScene scene =>
      dsimp only
      rw [hs]
      cases (e.notify (.commandDispatched (.activateScene scene) depth)).scenes.lookup scene with
      | none => exact .ok hn
      | some cmds =>
        exact .foldlM (fun c _ _ h => ih (by omega) h c 1 none) (hn.notify _)
    | scheduleTimer | cancelTimer => exact .ok (hn.scheduleCommand _)
    | _ => exact hn.dispatchDevice _ attempt origin depth

theorem dispatchAll {fuel fuel' : ℕ} (more : fuel ≤ fuel') (h : Twin R e e') (cmds : List Command)
    (depth : ℕ) :
    Followed (Twin R) (dispatchAll fuel cmds depth e) (dispatchAll fuel' cmds depth e') :=
  .foldlM (fun c _ _ h => h.dispatchAt more c 1 none depth) h

theorem fire {fuel fuel' : ℕ} (more : fuel ≤ fuel') (h : Twin R e e') (rule : Rule) (depth : ℕ) :
    Followed (Twin R) (fire fuel rule depth e) (fire fuel' rule depth e') := by
  have hs : e'.state = e.state := by rw [h.same]
  rw [Engine.fire,Engine.fire,hs]
  exact (h.record _).dispatchAll more rule.commands depth

end Dispatch

theorem armForTimer (h : Twin R e e') (rule : RuleId) (after : Millis) :
    Twin R (e.armForTimer rule after) (e'.armForTimer rule after) := by
  have hp : e'.pendingFor = e.pendingFor := by rw [h.same]
  rw [Engine.armForTimer,Engine.armForTimer,hp]
  cases e.pendingFor.lookup rule with
  | none =>
    cases h with
    | intro nbs ds hn hd => exact .intro nbs _ hn (hd.concat _)
  | some prev =>
    cases h with
    | intro nbs ds hn hd => exact .intro nbs _ hn ((hd.concat _).concat _)

section Reactions
variable (π π' : HashOrder)

theorem cancelRevertedForTimers (h : Twin R e e') (keyed : e.Keyed) :
    Twin R (e.cancelRevertedForTimers π) (e'.cancelRevertedForTimers π') := by
  cases h with
  | intro nbs ds hn hd =>
    set e' : Engine A N := { e with northbound := nbs,dispatches := ds }
    have hrules : (e.revertedRules π).Perm (e'.revertedRules π') :=
      ((HashMap.iter_perm π π' _ _ e.pendingFor).map Prod.fst).filter _
    have hkeys : (e.waitKeys (e.revertedRules π)).Perm (e'.waitKeys (e'.revertedRules π')) :=
      hrules.filterMap _
    have nodup : (e.revertedRules π).Nodup := (HashMap.iter_keys_nodup π _ e.pendingFor).filter _
    have loose : ∀ z ∈ (e.waitKeys (e.revertedRules π)).map
        fun k => (e.now,schedulerIdx,Command.cancelTimer k), CancelsWait z := by
      intro z hz
      obtain ⟨k,hk,rfl⟩ := List.mem_map.mp hz
      obtain ⟨rule,-,hk⟩ := List.mem_filterMap.mp hk
      obtain ⟨p,hp,rfl⟩ := Option.map_eq_some_iff.mp hk
      obtain ⟨n,-,hn⟩ := keyed.waiting rule p hp
      exact ⟨e.now,n+1,by rw [hn]⟩
    rw [Engine.cancelRevertedForTimers,Engine.cancelRevertedForTimers,foldl_cancelForTimer nodup,
      foldl_cancelForTimer (hrules.nodup_iff.mp nodup),HashMap.foldl_erase_perm hrules,
      HashMap.foldl_erase_perm hkeys]
    exact .intro nbs _ hn (hd.shuffled (hkeys.map _) loose)

/-- The `for:` entry of a key is found in every order, as there is only one. -/
theorem find_waiting (keyed : e.Keyed) (n n' : ℕ) (key : TimerKey) :
    (HashMap.iter π n e.pendingFor).find? (fun p => p.2.key == key) =
      (HashMap.iter π' n' e.pendingFor).find? fun p => p.2.key == key := by
  have unique : ∀ a ∈ e.pendingFor.entries.map fun s => (s.1,s.2),
      ∀ b ∈ e.pendingFor.entries.map fun s => (s.1,s.2),
        (a.2.key == key) = true → (b.2.key == key) = true → a = b := by
    rintro ⟨rule,p⟩ ha ⟨rule',p'⟩ hb hk hk'
    have ha' := HashMap.mem_iter.mp ((HashMap.iter_perm .identity .identity 0 0 _).mem_iff.mp ha)
    have hb' := HashMap.mem_iter.mp ((HashMap.iter_perm .identity .identity 0 0 _).mem_iff.mp hb)
    obtain ⟨k⟩ := p
    obtain ⟨k'⟩ := p'
    obtain rfl : k = k' := (eq_of_beq hk).trans (eq_of_beq hk').symm
    rw [keyed.distinct rule rule' _ ha' hb']
  exact (π.find_shuffle n _ _ unique).trans (π'.find_shuffle n' _ _ unique).symm

theorem considerRules (h : Twin R e e') (ev : Event) (prior : Option CapabilityState) :
    Twin R (e.considerRules ev prior).1 (e'.considerRules ev prior).1 ∧
      (e'.considerRules ev prior).2 = (e.considerRules ev prior).2 := by
  have hs : e'.state = e.state := by rw [h.same]
  have hr : e'.rules = e.rules := by rw [h.same]
  rw [Engine.considerRules,Engine.considerRules,hs,hr]
  refine ⟨foldl (fun r e e' h => ?_) _ h,rfl⟩
  have hs : e'.state = e.state := by rw [h.same]
  dsimp only
  rw [hs]
  exact h.notify _

variable [Adapter A] {fuel fuel' : ℕ}

theorem fireElapsedFor (more : fuel ≤ fuel') (h : Twin R e e') (keyed : e.Keyed) (key : TimerKey) :
    Followed (Twin R) (fireElapsedFor π fuel key e) (fireElapsedFor π' fuel' key e') := by
  have hp : e'.pendingFor = e.pendingFor := by rw [h.same]
  have hr (id : RuleId) : e'.rules.find? (fun r => r.id == id) = e.rules.find? fun r => r.id == id := by
    rw [h.same]
  have hs (t : Trigger) : t.predicateHolds e'.state = t.predicateHolds e.state := by rw [h.same]
  rw [Engine.fireElapsedFor,Engine.fireElapsedFor,hp,
    find_waiting π π' keyed e.trace.length e'.trace.length]
  cases (HashMap.iter π' e'.trace.length e.pendingFor).find? (fun p => p.2.key == key) with
  | none => exact .ok h
  | some x =>
    have he : Twin R { e with pendingFor := e.pendingFor.erase x.1 }
        { e' with pendingFor := e.pendingFor.erase x.1 } := by
      cases h with
      | intro nbs ds hn hd => exact .intro nbs ds hn hd
    dsimp only
    rw [hr]
    cases e.rules.find? fun r => r.id == x.1 with
    | none => exact .ok he
    | some rule =>
      dsimp only
      rw [hs]
      split_ifs
      · exact he.fire more rule 0
      · exact .ok he

theorem runFired (more : fuel ≤ fuel') (h : Twin R e e') (fired : List Rule) (depth : ℕ) :
    Followed (Twin R) (runFired fuel fired depth e) (runFired fuel' fired depth e') := by
  refine .foldlM (fun r _ _ h => h.fire more r depth) (foldl (fun r _ _ h => ?_) fired h)
  cases r.forDuration with
  | none => exact h
  | some d => exact h.armForTimer r.id d

end Reactions

section Northbound
variable [NorthboundAdapter N] (indifferent : Indifferent R)
include indifferent

theorem fanStateFolded (h : Twin R e e') (device : DeviceId) (state : CapabilityState) :
    Twin R (e.fanStateFolded device state) (e'.fanStateFolded device state) := by
  cases h with
  | intro nbs ds hn hd =>
    exact .intro _ ds (Indifferent.map hn fun _ _ h => indifferent.folded h device state) hd

theorem foldState (h : Twin R e e') (ev : Event) : Twin R (e.foldState ev) (e'.foldState ev) := by
  cases ev with
  | stateReported device state =>
    cases h with
    | intro nbs ds hn hd =>
      exact .intro _ ds (Indifferent.map hn fun _ _ h => indifferent.folded h device state) hd
  | _ => exact h

theorem refan (h : Twin R e e') (device : DeviceId) (kind : CapabilityKind) :
    Twin R (e.refan device kind) (e'.refan device kind) := by
  have hs : e'.state.get device kind = e.state.get device kind := by rw [h.same]
  rw [Engine.refan,Engine.refan,hs]
  cases e.state.get device kind with
  | none => exact h
  | some state => exact h.fanStateFolded indifferent device state

theorem tickAdapters [Adapter A] (π π' : HashOrder) (h : Twin R e e') :
    Twin R (e.tickAdapters π) (e'.tickAdapters π') := by
  cases h with
  | intro nbs ds hn hd =>
    have htick (n : ℕ) : e.adapters.tick π' n e.now = e.adapters.tick π n e.now := by
      rw [AdapterTable.tick,AdapterTable.tick,SchedulerAdapter.tick,SchedulerAdapter.tick,
        SchedulerAdapter.due_eq π' π n n]
    have ht : ({ e with northbound := nbs,dispatches := ds } : Engine A N).tickAdapters π' =
        { e.tickAdapters π with
          northbound := nbs.map fun nb : Northbound N => (nb.tick e.now).2
          dispatches := ds } := by
      simp only [Engine.tickAdapters,Engine.record,Engine.enqueueAll,htick,indifferent.said hn e.now]
    rw [ht]
    exact .intro _ ds (Indifferent.map hn fun _ _ h => (indifferent.tick h e.now).2) hd

theorem sync (π π' : HashOrder) (h : Twin R e e') :
    Twin R (e.syncNorthboundStartupState π) (e'.syncNorthboundStartupState π') := by
  cases h with
  | intro nbs ds hn hd =>
    have hperm : (e.state.iter π e.trace.length).Perm (e.state.iter π' e.trace.length) :=
      (HashMap.iter_perm π π' _ _ e.state.map).map _
    have heard := Indifferent.map hn fun _ _ h => indifferent.hear h hperm
    rw [← Northbound.foldl_fan,← Northbound.foldl_fan] at heard
    exact .intro _ ds heard hd

variable [Adapter A] (π π' : HashOrder) {fuel fuel' : ℕ}

theorem react (more : fuel ≤ fuel') (h : Twin R e e') (keyed : e.Keyed) (ev : Event) (depth : ℕ) :
    Followed (Twin R) (react π fuel ev depth e) (react π' fuel' ev depth e') := by
  have hf := h.foldState indifferent ev
  have hk : (e.foldState ev).Keyed := by cases ev <;> exact keyed.of_eq rfl rfl rfl rfl
  have hpr : e'.prior ev = e.prior ev := by
    rw [h.same]
    rfl
  have hc {e₂ e₂' : Engine A N} (h₂ : Twin R e₂ e₂') : Followed (Twin R)
      (Engine.runFired fuel (e₂.considerRules ev (e.prior ev)).2 depth
        (e₂.considerRules ev (e.prior ev)).1)
      (Engine.runFired fuel' (e₂'.considerRules ev (e'.prior ev)).2 depth
        (e₂'.considerRules ev (e'.prior ev)).1) := by
    obtain ⟨hconsidered,hfired⟩ := h₂.considerRules ev (e.prior ev)
    rw [hpr,hfired]
    exact hconsidered.runFired more _ depth
  rw [react_eq,react_eq]
  cases ev with
  | stateReported device state => exact hc (hf.cancelRevertedForTimers π π' hk)
  | _ => exact hc hf

theorem requestChange (more : fuel ≤ fuel') (h : Twin R e e') (device : DeviceId)
    (desired : Desired) (depth : ℕ) : Followed (Twin R) (requestChange fuel device desired depth e)
      (requestChange fuel' device desired depth e') := by
  unfold Engine.requestChange
  cases commandForRequestedChange device desired with
  | none => exact .ok (h.refan indifferent device desired.kind)
  | some cmd =>
    exact (h.dispatchAt more cmd 1 none depth).bind fun _ _ h =>
      .ok (h.refan indifferent device desired.kind)

theorem process (more : fuel ≤ fuel') (h : Twin R e e') (keyed : e.Keyed) (ev : Event) (depth : ℕ) :
    Followed (Twin R) (process π fuel ev depth e) (process π' fuel' ev depth e') := by
  have hd : e'.maxCascadeDepth = e.maxCascadeDepth := by rw [h.same]
  rw [Engine.process,Engine.process,hd]
  split_ifs
  · exact .ok (h.notify _)
  have hn := h.notify (.eventReceived ev depth)
  have hk : (e.notify (.eventReceived ev depth)).Keyed := keyed.notify _
  generalize e.notify (.eventReceived ev depth) = e₁ at hn hk
  generalize e'.notify (.eventReceived ev depth) = e₁' at hn
  cases ev with
  | timerElapsed key =>
    have hr : e₁'.retries = e₁.retries := by rw [hn.same]
    dsimp only
    rw [hr]
    cases e₁.retries.lookup key with
    | some pending =>
      have he : Twin R { e₁ with retries := e₁.retries.erase key }
          { e₁' with retries := e₁.retries.erase key } := by
        cases hn with
        | intro nbs ds hn hd => exact .intro nbs ds hn hd
      exact he.dispatchAt more pending.command pending.attempt (some pending.serial) 0
    | none =>
      dsimp only
      split_ifs
      · exact hn.fireElapsedFor π π' more hk key
      · exact hn.react indifferent π π' more hk _ depth
  | requestedChange device desired => exact hn.requestChange indifferent more device desired depth
  | requestedScene scene => exact hn.dispatchAt more _ 1 none depth
  | _ => exact hn.react indifferent π π' more hk _ depth

/-- Both engines drain, and end alike. -/
theorem drain (more : fuel ≤ fuel') (h : Twin R e e') (keyed : e.Keyed) :
    Followed (fun e e' => e.Keyed ∧ Twin R e e') (drain π fuel e) (drain π' fuel' e') := by
  induction fuel generalizing fuel' e e' with
  | zero => exact .error
  | succ fuel ih =>
    obtain ⟨k,rfl⟩ : ∃ k, fuel' = k+1 := ⟨fuel'-1,by omega⟩
    have hq : e'.queue = e.queue := by rw [h.same]
    rw [Engine.drain,Engine.drain,hq]
    cases e.queue with
    | nil => exact .ok ⟨keyed,h⟩
    | cons x rest =>
      have hp : Twin R { e with queue := rest } { e' with queue := rest } := by
        cases h with
        | intro nbs ds hn hd => exact .intro nbs ds hn hd
      have hk : ({ e with queue := rest } : Engine A N).Keyed := keyed.of_eq rfl rfl rfl rfl
      intro a ha
      obtain ⟨e₁,h₁,h₂⟩ := bind_ok_iff.mp ha
      have hle : fuel ≤ k := Nat.le_of_succ_le_succ more
      obtain ⟨e₁',h₁',ht⟩ := hp.process indifferent π π' hle hk x.1 x.2 e₁ h₁
      obtain ⟨a',h₂',hr⟩ := ih hle ht (hk.moves (moves_of_process h₁)) a h₂
      exact ⟨a',bind_ok_iff.mpr ⟨e₁',h₁',h₂'⟩,hr⟩

end Northbound
end Twin

/-- What the host may do between two quiescent states. -/
inductive Input (N : Type)
  | start
  | inject (ev : Event)
  | advance (dt : Millis)
  | addNorthbound (n : N)

variable [Adapter A] [NorthboundAdapter N]

def feed (π : HashOrder) (fuel : ℕ) (e : Engine A N) : Input N → Exec (Engine A N)
  | .start => e.start π fuel
  | .inject ev => e.inject π fuel ev
  | .advance dt => e.advance π fuel dt
  | .addNorthbound n => .ok (e.addNorthbound n)

/-- One run: the inputs, one after the other. -/
def play (π : HashOrder) (fuel : ℕ) (inputs : List (Input N)) (e : Engine A N) :
    Exec (Engine A N) :=
  inputs.foldlM (feed π fuel) e

section Play
variable {R : N → N → Prop} {e e' : Engine A N} (indifferent : Indifferent R) (π π' : HashOrder)
  {fuel fuel' : ℕ}
include indifferent

theorem Twin.feed (more : fuel ≤ fuel') (h : Twin R e e') (keyed : e.Keyed) (input : Input N)
    (registers : ∀ n, input = .addNorthbound n → R n n) :
    Followed (fun e e' => e.Keyed ∧ Twin R e e') (feed π fuel e input) (feed π' fuel' e' input) := by
  cases input with
  | start =>
    have hk : ((e.record .started).tickAdapters π).Keyed := keyed.of_eq rfl rfl rfl rfl
    refine (((h.record .started).tickAdapters indifferent π π').drain indifferent π π' more hk).bind
      fun a b hab => .ok ⟨?_,hab.2.sync indifferent π π'⟩
    exact hab.1.of_eq rfl rfl rfl rfl
  | inject ev =>
    have hk : (e.enqueue ev 0).Keyed := keyed.of_eq rfl rfl rfl rfl
    exact (h.enqueueAll [ev] 0).drain indifferent π π' more hk
  | advance dt =>
    have he : Twin R (e.elapse dt) (e'.elapse dt) := by
      cases h with
      | intro nbs ds hn hd => exact .intro nbs ds hn hd
    have hk : ((e.elapse dt).tickAdapters π).Keyed := keyed.of_eq rfl rfl rfl rfl
    exact (he.tickAdapters indifferent π π').drain indifferent π π' more hk
  | addNorthbound n =>
    refine .ok ⟨keyed.of_eq rfl rfl rfl rfl,?_⟩
    cases h with
    | intro nbs ds hn hd =>
      exact .intro _ ds (List.rel_append hn (.cons (registers n rfl) .nil)) hd

theorem Twin.play (more : fuel ≤ fuel') {inputs : List (Input N)}
    (registers : ∀ n, .addNorthbound n ∈ inputs → R n n) (h : Twin R e e') (keyed : e.Keyed) :
    Followed (fun e e' => e.Keyed ∧ Twin R e e') (play π fuel inputs e) (play π' fuel' inputs e') := by
  induction inputs generalizing e e' with
  | nil => exact .ok ⟨keyed,h⟩
  | cons input inputs ih =>
    rw [Engine.play,Engine.play,List.foldlM_cons,List.foldlM_cons]
    refine (h.feed indifferent π π' more keyed input fun n hn => ?_).bind fun a b hab => ?_
    · exact registers n (hn ▸ List.mem_cons_self)
    · exact ih (fun n hn => registers n (List.mem_cons_of_mem _ hn)) hab.2 hab.1

end Play
end Engine

/-- In whatever order the maps of two runs over the same inputs are iterated, and however much fuel
each has: if one returns so does the other, the observers hear the same, the adapters are called with
the same commands up to the order of neighbouring cancellations of `for:` timers, and the runs end
with equal stores, queues and timers. -/
theorem replay_is_deterministic {A N : Type} [Adapter A] [NorthboundAdapter N] {R : N → N → Prop}
    (indifferent : Indifferent R) {e₀ : Engine A N} (fresh : e₀.Fresh)
    (attached : ∀ nb ∈ e₀.northbound, R nb.adapter nb.adapter) {inputs : List (Engine.Input N)}
    (registers : ∀ n, .addNorthbound n ∈ inputs → R n n) {π π' : HashOrder} {fuel : ℕ}
    {e : Engine A N} (run : e₀.play π fuel inputs = .ok e) :
    (∃ e', e₀.play π' fuel inputs = .ok e') ∧
      ∀ fuel' e', e₀.play π' fuel' inputs = .ok e' →
        Reordered CancelsWait e.dispatches e'.dispatches ∧ e'.trace = e.trace ∧
          e'.state = e.state ∧ e'.queue = e.queue ∧ e'.timers = e.timers ∧ e'.now = e.now ∧
          e'.adapters.rest = e.adapters.rest := by
  have keyed := fresh.keyed
  have self : Engine.Twin R e₀ e₀ :=
    .intro e₀.northbound e₀.dispatches (List.forall₂_same.mpr attached) (.refl _)
  refine ⟨?_,fun fuel' e' run' => ?_⟩
  · obtain ⟨e',he,-⟩ := Engine.Twin.play indifferent π π' le_rfl registers self keyed e run
    exact ⟨e',he⟩
  rcases le_total fuel fuel' with hle | hle
  · obtain ⟨e₁,he,-,ht⟩ := Engine.Twin.play indifferent π π' hle registers self keyed e run
    cases run'.symm.trans he
    cases ht with
    | intro nbs ds hn hd => exact ⟨hd,rfl,rfl,rfl,rfl,rfl,rfl⟩
  · obtain ⟨e₁,he,-,ht⟩ := Engine.Twin.play indifferent π' π hle registers self keyed e' run'
    cases run.symm.trans he
    cases ht with
    | intro nbs ds hn hd => exact ⟨hd.symm,rfl,rfl,rfl,rfl,rfl,rfl⟩

/-! ### The northbound adapters of the repository -/

/-- What a consumer says comes from a part of it that the folded states never touch. -/
theorem Indifferent.of_deaf {N B : Type} [NorthboundAdapter N] {part : N → B}
    (tick : ∀ {a b : N}, part a = part b → ∀ now, (Adapter.tick a now).1 = (Adapter.tick b now).1 ∧
      part (Adapter.tick a now).2 = part (Adapter.tick b now).2)
    (deaf : ∀ (a : N) device state, part (NorthboundAdapter.stateFolded a device state) = part a) :
    Indifferent fun a b : N => part a = part b := by
  refine ⟨tick,fun {a b} h device state => ?_,fun {a b} h {xs ys} _ => ?_⟩
  · rw [deaf,deaf,h]
  · have replayed (zs : List (DeviceId × CapabilityState)) (a : N) :
        part (zs.foldl (fun a x => NorthboundAdapter.stateFolded a x.1 x.2) a) = part a := by
      induction zs generalizing a with
      | nil => rfl
      | cons z zs ih => exact (ih _).trans (deaf a z.1 z.2)
    rw [replayed,replayed,h]

/-- The HTTP threads queue their requests whatever the mirror holds. -/
theorem RestApiAdapter.indifferent :
    Indifferent fun a b : RestApiAdapter => a.inbound = b.inbound := by
  refine .of_deaf (fun {a b} h now => ?_) fun _ _ _ => rfl
  change (a.inbound.headD []).map Inbound.event = (b.inbound.headD []).map Inbound.event ∧
    a.inbound.tail = b.inbound.tail
  rw [h]
  exact ⟨rfl,rfl⟩

theorem MockNorthbound.indifferent : Indifferent fun a b : MockNorthbound =>
    (a.pendingWrites,a.pendingScenes) = (b.pendingWrites,b.pendingScenes) := by
  refine .of_deaf (fun {a b} h now => ⟨?_,rfl⟩) fun _ _ _ => rfl
  obtain ⟨hw,hs⟩ := Prod.mk.inj h
  change a.tick.1 = b.tick.1
  rw [tick,tick,hw,hs]

/-! ### Two rules that wait for the same presence -/

def vigilConfig : RawConfig :=
  { presenceConfig with
    rules := .pair (show "presence" < "vigil" by decide) presenceRule presenceRule }

/-- The lamp is on, someone comes, and leaves before the second is over. -/
def vigilInputs : List (Engine.Input MockNorthbound) :=
  [.start,.inject (.stateReported ⟨0⟩ (.switch true)),.inject (.stateReported ⟨0⟩ (.occupancy true)),
    .inject (.stateReported ⟨0⟩ (.occupancy false))]

/-- The report of absence cancels both waits, and the scheduler hears of them in hash order. -/
theorem cancellations_come_in_hash_order : ∃ cfg e₀ e e',
    resolve plainLibraries .identity vigilConfig = .ok cfg ∧
      buildEngineFull plainBuilders cfg = some e₀ ∧
      e₀.play .identity 3 vigilInputs = .ok e ∧ e₀.play .reversed 3 vigilInputs = .ok e' ∧
      e'.dispatches ≠ e.dispatches :=
  ⟨_,_,_,_,rfl,rfl,rfl,rfl,by decide⟩

theorem vigil_is_replayed : ∃ cfg e₀ e e',
    resolve plainLibraries .identity vigilConfig = .ok cfg ∧
      buildEngineFull plainBuilders cfg = some e₀ ∧
      e₀.play .identity 3 vigilInputs = .ok e ∧ e₀.play .reversed 4 vigilInputs = .ok e' ∧
      Reordered CancelsWait e.dispatches e'.dispatches ∧ e'.trace = e.trace := by
  obtain ⟨cfg,e₀,e,e',h,hb,run,run'⟩ : ∃ cfg e₀ e e',
      resolve plainLibraries .identity vigilConfig = .ok cfg ∧
        buildEngineFull plainBuilders cfg = some e₀ ∧
        e₀.play .identity 3 vigilInputs = .ok e ∧ e₀.play .reversed 4 vigilInputs = .ok e' :=
    ⟨_,_,_,_,rfl,rfl,rfl,rfl⟩
  have fresh := (built_of_accepted h hb).fresh
  have registers : ∀ n, Engine.Input.addNorthbound n ∈ vigilInputs →
      (n.pendingWrites,n.pendingScenes) = (n.pendingWrites,n.pendingScenes) := fun _ _ => rfl
  obtain ⟨hd,ht,-⟩ := (replay_is_deterministic MockNorthbound.indifferent fresh
    (fun _ _ => rfl) registers run).2 4 e' run'
  exact ⟨cfg,e₀,e,e',h,hb,run,run',hd,ht⟩

end Domiform
