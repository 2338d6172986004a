import Domiform.Engine.Dispatch

/-! What processing one event can do. `Processed` names the branches of `drain`; `Internal` is the
frame of everything that happens after the event was received and folded. -/
namespace Domiform
open Library Relation

/-- The entries that mark an event taken off the queue, or what the host does. -/
def Entry.isBus : Entry → Bool
  | .notice (.eventReceived _ _) | .notice (.cascadeDropped _ _) | .started | .ticked => true
  | _ => false

theorem Entry.inner_of_isDispatch {x : Entry} (h : x.isDispatch = true) :
    x.isBus = false ∧ ∀ id s, x ≠ .firing id s := by
  cases x with
  | notice n => cases n <;> first | exact ⟨rfl,by rintro _ _ ⟨⟩⟩ | cases h
  | firing rule state => cases h
  | _ => first | exact ⟨rfl,by rintro _ _ ⟨⟩⟩ | cases h

namespace Northbound
variable {N : Type} [NorthboundAdapter N]

/-- The adapter after it heard a list of folded states. -/
def hear (nb : Northbound N) (fans : List (DeviceId × CapabilityState)) : Northbound N :=
  fans.foldl (fun nb x => nb.stateFolded x.1 x.2) nb

@[simp] theorem hear_nil (nb : Northbound N) : nb.hear [] = nb := rfl

@[simp] theorem hear_append (nb : Northbound N) (xs ys : List (DeviceId × CapabilityState)) :
    nb.hear (xs ++ ys) = (nb.hear xs).hear ys := List.foldl_append

@[simp] theorem received_hear (nb : Northbound N) (xs : List (DeviceId × CapabilityState)) :
    (nb.hear xs).received = nb.received ++ xs := by
  induction xs generalizing nb with
  | nil => simp
  | cons x xs ih =>
    have h := ih (nb.stateFolded x.1 x.2)
    simpa [hear,stateFolded] using h

/-- Fanning states one by one is letting every adapter hear them all. -/
theorem foldl_fan (fans : List (DeviceId × CapabilityState)) (nbs : List (Northbound N)) :
    fans.foldl (fun nbs x => nbs.map fun nb : Northbound N => nb.stateFolded x.1 x.2) nbs =
      nbs.map fun nb => nb.hear fans := by
  induction fans generalizing nbs with
  | nil => simp
  | cons x xs ih =>
    rw [List.foldl_cons,ih,List.map_map]
    rfl

end Northbound

namespace Engine
variable {A N : Type} [Adapter A] [NorthboundAdapter N]

/-- `fires` are the rules whose commands may be dispatched, `depth` the causal depth. Northbound
adapters hear only what the store holds. -/
structure Internal (fires : Rule → Prop) (depth : ℕ) (e e' : Engine A N) : Prop where
  now : e'.now = e.now
  state : e'.state = e.state
  rules : e'.rules = e.rules
  deviceToAdapter : e'.deviceToAdapter = e.deviceToAdapter
  scenes : e'.scenes = e.scenes
  retry : e'.retry = e.retry
  maxCascadeDepth : e'.maxCascadeDepth = e.maxCascadeDepth
  size : e'.adapters.size = e.adapters.size
  overflowed : e'.overflowed = false → e.overflowed = false
  northbound : ∃ fans : List (DeviceId × CapabilityState),
    e'.northbound = e.northbound.map (fun nb : Northbound N => nb.hear fans) ∧
    ∀ x ∈ fans, e.state.get x.1 x.2.kind = some x.2
  trace : ∃ xs : List Entry, e'.trace = e.trace ++ xs.map (fun x => (e.now,x)) ∧
    ∀ x ∈ xs, x.isBus = false ∧ ∀ id s, x = .firing id s → s = e.state ∧ ∃ r, fires r ∧ r.id = id
  queue : ∃ evs : List Event, e'.queue = e.queue ++ evs.map (fun ev => (ev,nextDepth depth)) ∧
    ∀ ev ∈ evs, Yields A ev

namespace Internal
variable {fires : Rule → Prop} {depth : ℕ} {e e' e'' : Engine A N}

theorem of_frame (h : Dispatched depth e e') : Internal fires depth e e' := by
  obtain ⟨xs,hx,hxs⟩ := h.trace
  refine ⟨h.now,h.state,h.rules,h.deviceToAdapter,h.scenes,h.retry,h.maxCascadeDepth,h.size,
    h.overflowed,⟨[],by simpa using h.northbound,by simp⟩,⟨xs,hx,fun x hm => ?_⟩,h.queue⟩
  obtain ⟨hb,hn⟩ := Entry.inner_of_isDispatch (hxs x hm)
  exact ⟨hb,fun id s he => absurd he (hn id s)⟩

theorem refl (e : Engine A N) : Internal fires depth e e := of_frame (.refl e)

theorem trans (h : Internal fires depth e e') (h' : Internal fires depth e' e'') :
    Internal fires depth e e'' := by
  obtain ⟨xs,hx,hxs⟩ := h.trace
  obtain ⟨ys,hy,hys⟩ := h'.trace
  obtain ⟨evs,he,hevs⟩ := h.queue
  obtain ⟨fvs,hf,hfvs⟩ := h'.queue
  obtain ⟨fans,hn,hfans⟩ := h.northbound
  obtain ⟨gans,hg,hgans⟩ := h'.northbound
  refine ⟨h'.now.trans h.now,h'.state.trans h.state,h'.rules.trans h.rules,
    h'.deviceToAdapter.trans h.deviceToAdapter,h'.scenes.trans h.scenes,h'.retry.trans h.retry,
    h'.maxCascadeDepth.trans h.maxCascadeDepth,h'.size.trans h.size,
    fun ho => h.overflowed (h'.overflowed ho),⟨fans ++ gans,?_,?_⟩,⟨xs ++ ys,?_,?_⟩,
    ⟨evs ++ fvs,?_,?_⟩⟩
  · simp [hg,hn,Function.comp_def]
  · rw [h.state] at hgans
    intro x hm
    exact (List.mem_append.mp hm).elim (hfans x) (hgans x)
  · rw [hy,hx,h.now]
    simp
  · rw [h.state] at hys
    intro x hm
    exact (List.mem_append.mp hm).elim (hxs x) (hys x)
  · rw [hf,he]
    simp
  · simpa [or_imp,forall_and] using ⟨hevs,hfvs⟩

theorem of_record (e : Engine A N) {x : Entry} (hb : x.isBus = false)
    (hx : ∀ id s, x = .firing id s → s = e.state ∧ ∃ r, fires r ∧ r.id = id) :
    Internal fires depth e (e.record x) := by
  refine ⟨rfl,rfl,rfl,rfl,rfl,rfl,rfl,rfl,id,⟨[],by simp [record],by simp⟩,⟨[x],by simp,?_⟩,⟨[],?_,by simp⟩⟩
  · intro y hy
    rw [List.mem_singleton.mp hy]
    exact ⟨hb,hx⟩
  · simp [record]

/-- Changing only the pending `for:` timers, and their counter, is internal. -/
theorem of_pendingFor (e : Engine A N) (p : HashMap RuleId PendingFor) (n : ℕ) :
    Internal fires depth e { e with pendingFor := p,forCounter := n } := by
  refine ⟨rfl,rfl,rfl,rfl,rfl,rfl,rfl,rfl,id,⟨[],by simp,by simp⟩,⟨[],?_,by simp⟩,⟨[],?_,by simp⟩⟩ <;>
    simp

theorem of_fan (e : Engine A N) {device : DeviceId} {state : CapabilityState}
    (h : e.state.get device state.kind = some state) :
    Internal fires depth e (e.fanStateFolded device state) := by
  refine ⟨rfl,rfl,rfl,rfl,rfl,rfl,rfl,rfl,id,⟨[(device,state)],rfl,by simpa using h⟩,
    ⟨[.notice (.stateFolded device state)],by simp [fanStateFolded],?_⟩,⟨[],?_,by simp⟩⟩
  · intro y hy
    rw [List.mem_singleton.mp hy]
    exact ⟨rfl,by rintro _ _ ⟨⟩⟩
  · simp [fanStateFolded,notify,record]

theorem of_foldl {α : Type} {f : Engine A N → α → Engine A N}
    (hf : ∀ e a, Internal fires depth e (f e a)) (xs : List α) (e : Engine A N) :
    Internal fires depth e (xs.foldl f e) := by
  induction xs generalizing e with
  | nil => exact refl e
  | cons a xs ih => exact (hf e a).trans (ih (f e a))

theorem of_armForTimer (e : Engine A N) (rule : RuleId) (after : Millis) :
    Internal fires depth e (e.armForTimer rule after) := by
  have hn (e : Engine A N) : Internal fires depth e
      ({ e with
        forCounter := e.forCounter+1
        pendingFor := e.pendingFor.insert rule ⟨forKey (e.forCounter+1)⟩ }.schedule
          (.scheduleTimer (forKey (e.forCounter+1)) after)) :=
    (of_pendingFor e _ _).trans (of_frame (.of_schedule _ _))
  simp only [armForTimer]
  cases e.pendingFor.lookup rule with
  | none => exact hn e
  | some prev =>
    have hc : Internal fires depth e
        ({ e with pendingFor := e.pendingFor.erase rule }.schedule (.cancelTimer prev.key)) :=
      (of_pendingFor e _ e.forCounter).trans (of_frame (.of_schedule _ _))
    exact hc.trans (hn _)

theorem of_armAll (fired : List Rule) (e : Engine A N) : Internal fires depth e (armAll fired e) :=
  armAll_induct fired (fun r _ after _ b hb => hb.trans (of_armForTimer b r.id after)) (refl e)

theorem of_cancelForTimer (e : Engine A N) (rule : RuleId) :
    Internal fires depth e (e.cancelForTimer rule) := by
  simp only [cancelForTimer]
  split
  · exact (of_pendingFor e _ e.forCounter).trans (of_frame (.of_schedule _ _))
  · exact refl e

theorem of_cancelRevertedForTimers (π : HashOrder) (e : Engine A N) :
    Internal fires depth e (e.cancelRevertedForTimers π) :=
  of_foldl of_cancelForTimer _ e

theorem of_considerRules (e : Engine A N) (ev : Event) (prior : Option CapabilityState) :
    Internal fires depth e (e.considerRules ev prior).1 :=
  of_foldl (fun e r => of_record e (x := .notice _) rfl (by rintro _ _ ⟨⟩)) _ e

theorem of_refan (e : Engine A N) (device : DeviceId) (kind : CapabilityKind) :
    Internal fires depth e (e.refan device kind) := by
  simp only [refan]
  split
  · rename_i state h
    exact of_fan e (by rwa [StateStore.kind_of_get h])
  · exact refl e

theorem of_fire {fuel : ℕ} {rule : Rule} (hr : fires rule)
    (h : fire fuel rule depth e = .ok e') : Internal fires depth e e' := by
  refine (of_record e rfl ?_).trans (of_frame (acts_frame
    (dispatchAll_acts (fun _ => True) (fun _ _ => trivial) (fun _ _ _ _ _ => trivial) h)))
  rintro id s ⟨⟩
  exact ⟨rfl,rule,hr,rfl⟩

theorem of_runFired {fuel : ℕ} {fired : List Rule}
    (hr : ∀ r ∈ fired, r.forDuration = none → fires r)
    (h : runFired fuel fired depth e = .ok e') : Internal fires depth e e' := by
  refine runFired_induct (fun r _ after _ b hb => ?_) (fun r hm hn b b' hb hf => ?_) h (refl e)
  · exact hb.trans (of_armForTimer b r.id after)
  · exact hb.trans (of_fire (hr r hm hn) hf)

end Internal

/-- The engine once the event was announced. -/
def received (e : Engine A N) (ev : Event) (depth : ℕ) : Engine A N :=
  e.notify (.eventReceived ev depth)

/-- Whether the event is a timer the engine keeps to itself. -/
def intercepts (e : Engine A N) : Event → Bool
  | .timerElapsed key => (e.retries.lookup key).isSome || key.startsWith forKeyPrefix
  | _ => false

/-- Requests are dispatched, never folded nor matched. -/
def isRequest : Event → Bool
  | .requestedChange _ _ | .requestedScene _ => true
  | _ => false

/-- The branches of `drain` for one event. -/
inductive Processed (π : HashOrder) (fuel : ℕ) (depth : ℕ) (e : Engine A N) :
    Event → Engine A N → Prop
  | dropped (ev : Event) (deep : e.maxCascadeDepth < depth) :
      Processed π fuel depth e ev (e.notify (.cascadeDropped ev depth))
  | retried (key : TimerKey) (p : PendingRetry) (e' : Engine A N) (le : depth ≤ e.maxCascadeDepth)
      (pending : e.retries.lookup key = some p)
      (h : dispatchAt fuel p.command p.attempt (some p.serial) 0
        { e.received (.timerElapsed key) depth with retries := e.retries.erase key } = .ok e') :
      Processed π fuel depth e (.timerElapsed key) e'
  | elapsed (key : TimerKey) (e' : Engine A N) (le : depth ≤ e.maxCascadeDepth)
      (fresh : e.retries.lookup key = none) (own : key.startsWith forKeyPrefix = true)
      (h : fireElapsedFor π fuel key (e.received (.timerElapsed key) depth) = .ok e') :
      Processed π fuel depth e (.timerElapsed key) e'
  | changed (device : DeviceId) (desired : Desired) (e' : Engine A N)
      (le : depth ≤ e.maxCascadeDepth)
      (h : requestChange fuel device desired depth
        (e.received (.requestedChange device desired) depth) = .ok e') :
      Processed π fuel depth e (.requestedChange device desired) e'
  | activated (scene : SceneId) (e' : Engine A N) (le : depth ≤ e.maxCascadeDepth)
      (h : dispatchAt fuel (.activateScene scene) 1 none depth
        (e.received (.requestedScene scene) depth) = .ok e') :
      Processed π fuel depth e (.requestedScene scene) e'
  | reacted (ev : Event) (e' : Engine A N) (le : depth ≤ e.maxCascadeDepth)
      (ordinary : e.intercepts ev = false) (report : isRequest ev = false)
      (h : react π fuel ev depth (e.received ev depth) = .ok e') :
      Processed π fuel depth e ev e'

theorem process_processed {π : HashOrder} {fuel depth : ℕ} {ev : Event} {e e' : Engine A N}
    (h : process π fuel ev depth e = .ok e') : Processed π fuel depth e ev e' := by
  rw [process] at h
  split_ifs at h with hd
  · cases h
    exact .dropped ev hd
  · have hle := not_lt.mp hd
    dsimp only at h
    split at h
    · rename_i key
      split at h
      · rename_i p hp
        exact .retried key p e' hle hp h
      · rename_i hn
        split_ifs at h with hk
        · exact .elapsed key e' hle hn hk h
        · have hn' : e.retries.lookup key = none := hn
          exact .reacted _ e' hle (by simp [intercepts,hn',hk]) rfl h
    · exact .changed _ _ e' hle h
    · exact .activated _ e' hle h
    · rename_i ht hc hs
      refine .reacted ev e' hle ?_ ?_ h
      · cases ev <;> first | rfl | exact absurd rfl (ht _)
      · cases ev <;> first | rfl | exact absurd rfl (hc _ _) | exact absurd rfl (hs _)

/-- What the store held for the reported capability before the event. -/
def prior (e : Engine A N) : Event → Option CapabilityState
  | .stateReported device state => e.state.get device state.kind
  | _ => none

/-- The store after an event was folded. -/
def fold (s : StateStore) : Event → StateStore
  | .stateReported device state => s.set device state
  | _ => s

omit [Adapter A] in
@[simp] theorem foldState_state (e : Engine A N) (ev : Event) :
    (e.foldState ev).state = fold e.state ev := by
  cases ev <;> rfl

/-- The rules whose commands the event may dispatch: those that match and hold now, and the one
whose `for:` timer this is, if its predicate still holds. -/
inductive Fires (e : Engine A N) (ev : Event) (r : Rule) : Prop
  | now (mem : r ∈ e.rules) (immediate : r.forDuration = none)
      (matched : r.trigger.matchesEvent ev (e.prior ev) = true)
      (holds : r.condition.eval (fold e.state ev) = .true)
  | later (key : TimerKey) (timer : ev = .timerElapsed key)
      (pending : e.pendingFor.lookup r.id = some ⟨key⟩) (fresh : e.retries.lookup key = none)
      (found : e.rules.find? (fun r' => r'.id == r.id) = some r)
      (sustained : r.trigger.predicateHolds e.state = true)

theorem react_eq (π : HashOrder) (fuel : ℕ) (ev : Event) (depth : ℕ) (e : Engine A N) :
    react π fuel ev depth e =
      let e₁ := e.foldState ev
      let e₂ := if (match ev with | .stateReported _ _ => true | _ => false) then
        e₁.cancelRevertedForTimers π else e₁
      runFired fuel (e₂.considerRules ev (e.prior ev)).2 depth (e₂.considerRules ev (e.prior ev)).1 := by
  cases ev <;> rfl

omit [NorthboundAdapter N] in
/-- The timer of a waiting rule ends the wait, and fires the rule if its predicate still holds. -/
theorem fireElapsedFor_cases {π : HashOrder} {fuel : ℕ} {key : TimerKey} {e e' : Engine A N}
    (h : fireElapsedFor π fuel key e = .ok e') :
    e' = e ∨ ∃ id, e.pendingFor.lookup id = some ⟨key⟩ ∧
      (e' = { e with pendingFor := e.pendingFor.erase id } ∨
        ∃ rule, rule.id = id ∧ e.rules.find? (fun r => r.id == id) = some rule ∧
          rule.trigger.predicateHolds e.state = true ∧
          fire fuel rule 0 { e with pendingFor := e.pendingFor.erase id } = .ok e') := by
  simp only [fireElapsedFor] at h
  split at h
  · cases h
    exact .inl rfl
  · rename_i id p hp
    obtain ⟨k⟩ := p
    obtain rfl : k = key := by simpa using List.find?_some hp
    refine .inr ⟨id,HashMap.mem_iter.mp (List.mem_of_find?_eq_some hp),?_⟩
    split at h
    · cases h
      exact .inl rfl
    · rename_i rule hf
      split_ifs at h with hs
      · exact .inr ⟨rule,by simpa using List.find?_some hf,hf,hs,h⟩
      · cases h
        exact .inl rfl

theorem Internal.of_reverted {fires : Rule → Prop} {π : HashOrder} {depth : ℕ} {e e₁ : Engine A N}
    (h : e₁ = e ∨ e₁ = e.cancelRevertedForTimers π) : Internal fires depth e e₁ := by
  rcases h with rfl | rfl
  · exact .refl _
  · exact .of_cancelRevertedForTimers π e

/-- On the ordinary path the rules that match and hold on the folded store are fired; a report may
end waits before. -/
theorem react_cases {π : HashOrder} {fuel depth : ℕ} {ev : Event} {e e' : Engine A N}
    (h : react π fuel ev depth e = .ok e') : ∃ e₂, (e₂ = e.foldState ev ∨
      e₂ = (e.foldState ev).cancelRevertedForTimers π) ∧
      (∀ r, r ∈ (e₂.considerRules ev (e.prior ev)).2 ↔ r ∈ e.rules ∧
        r.trigger.matchesEvent ev (e.prior ev) = true ∧ r.condition.eval (fold e.state ev) = .true) ∧
      runFired fuel (e₂.considerRules ev (e.prior ev)).2 depth
        (e₂.considerRules ev (e.prior ev)).1 = .ok e' := by
  rw [react_eq] at h
  dsimp only at h
  generalize he₂ : (if (match ev with | .stateReported _ _ => true | _ => false) then
    (e.foldState ev).cancelRevertedForTimers π else e.foldState ev) = e₂ at h
  have hc : e₂ = e.foldState ev ∨ e₂ = (e.foldState ev).cancelRevertedForTimers π := by
    rw [← he₂]
    split_ifs
    · exact .inr rfl
    · exact .inl rfl
  refine ⟨e₂,hc,fun r => ?_,h⟩
  have hi : Internal (fun _ => True) 0 (e.foldState ev) e₂ := .of_reverted hc
  have hrules : (e.foldState ev).rules = e.rules := by cases ev <;> rfl
  simp only [considerRules,List.mem_filter,Truth.isTrue_iff,hi.state,hi.rules,hrules,
    foldState_state,and_assoc]

omit [Adapter A] [NorthboundAdapter N] in
/-- Considering the rules only writes down what came of each that matched. -/
theorem considerRules_fst (e : Engine A N) (ev : Event) (prior : Option CapabilityState) :
    (e.considerRules ev prior).1 = { e with trace := e.trace ++
      (e.rules.filter fun r => r.trigger.matchesEvent ev prior).map fun r =>
        (e.now,.notice (.ruleConsidered r.id (r.condition.eval e.state)
          (r.condition.eval e.state).isTrue)) } := by
  have hf (rs : List Rule) (e : Engine A N) : rs.foldl (fun e r =>
      let truth := r.condition.eval e.state
      e.notify (.ruleConsidered r.id truth truth.isTrue)) e =
        { e with trace := e.trace ++ rs.map fun r => (e.now,.notice (.ruleConsidered r.id
          (r.condition.eval e.state) (r.condition.eval e.state).isTrue)) } := by
    induction rs generalizing e with
    | nil => simp
    | cons r rs ih =>
      rw [List.foldl_cons,ih]
      simp [notify,record]
  exact hf _ e

/-- On the ordinary path every rule whose trigger matches is considered. -/
theorem considered_of_react {π : HashOrder} {fuel depth : ℕ} {ev : Event} {e e' : Engine A N}
    (h : react π fuel ev depth e = .ok e') {r : Rule} (hr : r ∈ e.rules)
    (hm : r.trigger.matchesEvent ev (e.prior ev) = true) : ∃ seen, e'.trace = e.trace ++ seen ∧
      (e.now,Entry.notice (.ruleConsidered r.id (r.condition.eval (fold e.state ev))
        (r.condition.eval (fold e.state ev)).isTrue)) ∈ seen := by
  obtain ⟨e₂,h₂,-,h⟩ := react_cases h
  replace h₂ : Internal (fun _ => True) depth (e.foldState ev) e₂ := .of_reverted h₂
  have hf : (e.foldState ev).rules = e.rules ∧ (e.foldState ev).now = e.now ∧
      ∃ xs, (e.foldState ev).trace = e.trace ++ xs := by
    cases ev with
    | stateReported d v => exact ⟨rfl,rfl,_,rfl⟩
    | _ => exact ⟨rfl,rfl,[],by simp [foldState]⟩
  have h₃ : Internal (fun _ => True) depth (e₂.considerRules ev (e.prior ev)).1 e' :=
    .of_runFired (fun _ _ _ => trivial) h
  obtain ⟨xs,hx⟩ := hf.2.2
  obtain ⟨ys,hy,-⟩ := h₂.trace
  obtain ⟨zs,hz,-⟩ := h₃.trace
  have hn : e₂.now = e.now := h₂.now.trans hf.2.1
  have hs : e₂.state = fold e.state ev := h₂.state.trans (foldState_state e ev)
  rw [considerRules_fst] at hz
  simp only [hy,hx,List.append_assoc] at hz
  refine ⟨_,hz,?_⟩
  refine List.mem_append_right _ (List.mem_append_right _ (List.mem_append_left _ ?_))
  rw [hn,hs]
  refine List.mem_map.mpr ⟨r,List.mem_filter.mpr ⟨?_,hm⟩,rfl⟩
  rw [h₂.rules,hf.1]
  exact hr

/-- Everything after receiving and folding the event is internal. -/
theorem Processed.internal {π : HashOrder} {fuel depth : ℕ} {ev : Event} {e e' : Engine A N}
    (h : Processed π fuel depth e ev e') (le : depth ≤ e.maxCascadeDepth) :
    Internal (e.Fires ev) (if e.intercepts ev then 0 else depth)
      ((e.received ev depth).foldState ev) e' := by
  cases h with
  | dropped ev deep => omega
  | retried key p e' le pending h =>
    simp only [intercepts,pending,Option.isSome_some,Bool.true_or,if_true]
    have hr : Internal (e.Fires (.timerElapsed key)) 0 (e.received (.timerElapsed key) depth)
        { e.received (.timerElapsed key) depth with retries := e.retries.erase key } := by
      refine ⟨rfl,rfl,rfl,rfl,rfl,rfl,rfl,rfl,id,⟨[],by simp,by simp⟩,⟨[],?_,by simp⟩,⟨[],?_,by simp⟩⟩ <;>
        simp
    exact hr.trans (.of_frame (dispatchAt_frame h))
  | elapsed key e' le fresh own h =>
    simp only [intercepts,own,Bool.or_true,if_true]
    change Internal _ _ (e.received (.timerElapsed key) depth) e'
    obtain rfl | ⟨id,waiting,h⟩ := fireElapsedFor_cases h
    · exact .refl _
    have he : Internal (e.Fires (.timerElapsed key)) 0 (e.received (.timerElapsed key) depth)
        { e.received (.timerElapsed key) depth with pendingFor := e.pendingFor.erase id } :=
      .of_pendingFor _ _ e.forCounter
    obtain rfl | ⟨rule,rfl,found,sustained,h⟩ := h
    · exact he
    · exact he.trans (.of_fire (.later key rfl waiting fresh found sustained) h)
  | changed device desired e' le h =>
    simp only [intercepts,Bool.false_eq_true,if_false]
    change Internal _ _ (e.received (.requestedChange device desired) depth) e'
    simp only [requestChange] at h
    split at h
    · obtain ⟨e₁,h₁,h₂⟩ := bind_ok_iff.mp h
      cases h₂
      exact (Internal.of_frame (dispatchAt_frame h₁)).trans (.of_refan e₁ device desired.kind)
    · cases h
      exact .of_refan _ device desired.kind
  | activated scene e' le h =>
    simp only [intercepts,Bool.false_eq_true,if_false]
    exact .of_frame (dispatchAt_frame h)
  | reacted ev e' le ordinary report h =>
    simp only [ordinary,Bool.false_eq_true,if_false]
    obtain ⟨e₂,h₂,hfired,h⟩ := react_cases h
    refine (Internal.of_reverted h₂).trans ((Internal.of_considerRules e₂ ev _).trans
      (.of_runFired (fun r hm hn => ?_) h))
    obtain ⟨hr,hmatch,hholds⟩ := (hfired r).mp hm
    exact .now hr hn hmatch hholds

/-- Processing an event takes no virtual time. -/
theorem Processed.now {π : HashOrder} {fuel depth : ℕ} {ev : Event} {e e' : Engine A N}
    (h : Processed π fuel depth e ev e') : e'.now = e.now := by
  by_cases le : depth ≤ e.maxCascadeDepth
  · refine (h.internal le).now.trans ?_
    cases ev <;> rfl
  · cases h with
    | dropped => rfl
    | _ => contradiction

/-- What an event within the bound adds to the queue: answers and failures, one hop deeper than
the event, or one hop below the surface when the event was a timer of the engine's own. -/
theorem Processed.queue {π : HashOrder} {fuel depth : ℕ} {ev : Event} {e e' : Engine A N}
    (h : Processed π fuel depth e ev e') (le : depth ≤ e.maxCascadeDepth) :
    ∃ evs : List Event, e'.queue = e.queue ++
        evs.map (fun ev' => (ev',nextDepth (if e.intercepts ev then 0 else depth))) ∧
      ∀ ev' ∈ evs, Yields A ev' := by
  obtain ⟨evs,hq,hy⟩ := (h.internal le).queue
  refine ⟨evs,?_,hy⟩
  rw [hq]
  cases ev <;> rfl

omit [Adapter A] in
theorem foldState_trace (e : Engine A N) (ev : Event) :
    ∃ xs : List Entry, (e.foldState ev).trace = e.trace ++ xs.map (fun x => (e.now,x)) ∧
      ∀ x ∈ xs, x.isBus = false ∧ ∀ id s, x ≠ .firing id s := by
  cases ev with
  | stateReported d v =>
    refine ⟨[.notice (.stateFolded d v)],rfl,fun x hx => ?_⟩
    rw [List.mem_singleton.mp hx]
    exact ⟨rfl,by rintro _ _ ⟨⟩⟩
  | _ => exact ⟨[],by simp [foldState],by simp⟩

/-- Receiving an event is written down first, and once; a firing sees the store with the event
folded into it. -/
theorem Processed.history {π : HashOrder} {fuel depth : ℕ} {ev : Event} {e e' : Engine A N}
    (h : Processed π fuel depth e ev e') (le : depth ≤ e.maxCascadeDepth) :
    ∃ xs : List Entry, e'.trace =
        e.trace ++ (e.now,.notice (.eventReceived ev depth)) :: xs.map (fun x => (e.now,x)) ∧
      ∀ x ∈ xs, x.isBus = false ∧ ∀ id s, x = .firing id s →
        s = fold e.state ev ∧ ∃ r, e.Fires ev r ∧ r.id = id := by
  obtain ⟨ys,hy,hys⟩ := foldState_trace (e.received ev depth) ev
  obtain ⟨zs,hz,hzs⟩ := (h.internal le).trace
  have hn : ((e.received ev depth).foldState ev).now = e.now := by cases ev <;> rfl
  refine ⟨ys ++ zs,?_,fun x hx => ?_⟩
  · rw [hz,hy,hn]
    simp [received,record,notify]
  · rcases List.mem_append.mp hx with hx | hx
    · exact ⟨(hys x hx).1,fun id s he => absurd he ((hys x hx).2 id s)⟩
    · have hs := hzs x hx
      rw [foldState_state] at hs
      exact hs

theorem Processed.state {π : HashOrder} {fuel depth : ℕ} {ev : Event} {e e' : Engine A N}
    (h : Processed π fuel depth e ev e') (le : depth ≤ e.maxCascadeDepth) :
    e'.state = fold e.state ev := by
  rw [(h.internal le).state,foldState_state]
  rfl

/-- What processing the next event keeps, draining keeps; and it leaves nothing behind. -/
theorem drain_induct {π : HashOrder} {I : Engine A N → Prop} {fuel : ℕ} {e e' : Engine A N}
    (step : ∀ fuel ev depth rest b b', b.queue = (ev,depth) :: rest →
      process π fuel ev depth { b with queue := rest } = .ok b' → I b → I b')
    (h : drain π fuel e = .ok e') (start : I e) : I e' ∧ e'.queue = [] := by
  induction fuel generalizing e with
  | zero => cases h
  | succ fuel ih =>
    rw [drain] at h
    cases hq : e.queue with
    | nil =>
      rw [hq] at h
      cases h
      exact ⟨start,hq⟩
    | cons x rest =>
      rw [hq] at h
      obtain ⟨e₁,h₁,h₂⟩ := bind_ok_iff.mp h
      exact ih h₂ (step fuel x.1 x.2 rest e e₁ hq h₁ start)

end Engine
end Domiform
