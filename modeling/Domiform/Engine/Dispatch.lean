import Domiform.Engine
import Domiform.Library.Fuel

/-! What dispatching can do. `Act` lists the elementary effects of `dispatch_at`, and `Dispatched`
is the frame they share: the store, the rules and the pending `for:` timers stay as they are, the
history and the queue only grow. -/
namespace Domiform
open Library Relation

/-- The entries that dispatching writes. -/
def Entry.isDispatch : Entry → Bool
  | .notice (.dispatchFailed _ _ _ _) | .notice (.retryScheduled _ _ _)
  | .notice (.commandFailed _ _ _) | .notice (.commandDispatched _ _)
  | .notice (.sceneExpanded _ _) | .timed _ _ _ | .issued _ _ | .handed _ _ _ _ _ | .gaveUp _ => true
  | _ => false

/-- The events dispatching can put on the bus: an adapter's answer, or the failure of a command. -/
def Yields (A : Type) [Adapter A] (ev : Event) : Prop :=
  (∃ (a : A) (cmd : Command) (now : Millis) (evs : List Event),
    (Adapter.dispatch a cmd now).1 = .ok evs ∧ ev ∈ evs) ∨
  ∃ cmd reason attempts, ev = .commandFailed cmd reason attempts

theorem Yields.isTimerElapsed {A : Type} [Adapter A] (hA : Adapter.DispatchTimerless A) {ev : Event}
    (h : Yields A ev) : ev.isTimerElapsed = false := by
  rcases h with ⟨a,cmd,now,evs,ho,he⟩ | ⟨cmd,reason,attempts,rfl⟩
  · exact hA a cmd now evs ho ev he
  · rfl

namespace Engine
variable {A N : Type}

section Updates

@[simp] theorem record_trace (e : Engine A N) (x : Entry) :
    (e.record x).trace = e.trace ++ [(e.now,x)] := rfl

@[simp] theorem handOver_trace (e : Engine A N) (idx : AdapterIdx) (cmd : Command)
    (adapters : AdapterTable A) : (e.handOver idx cmd adapters).trace = e.trace := rfl

@[simp] theorem handOver_queue (e : Engine A N) (idx : AdapterIdx) (cmd : Command)
    (adapters : AdapterTable A) : (e.handOver idx cmd adapters).queue = e.queue := rfl

@[simp] theorem notify_trace (e : Engine A N) (n : Notice) :
    (e.notify n).trace = e.trace ++ [(e.now,.notice n)] := rfl

/-- A relative command never resolves to a scene or to a timer, and those resolve to themselves. -/
theorem resolveImplicitStateCommand_cases (e : Engine A N) (cmd : Command) :
    e.resolveImplicitStateCommand cmd = cmd ∨
      cmd.targetDevice.isSome ∧ (e.resolveImplicitStateCommand cmd).targetDevice = cmd.targetDevice := by
  cases cmd with
  | toggleSwitch device =>
    simp only [resolveImplicitStateCommand]
    split
    · exact .inr ⟨rfl,rfl⟩
    · exact .inl rfl
  | decreaseBrightness device value | increaseBrightness device value =>
    simp only [resolveImplicitStateCommand]
    split
    · exact .inr ⟨rfl,rfl⟩
    · exact .inl rfl
  | _ => exact .inl rfl

@[simp] theorem resolveImplicitStateCommand_targetDevice (e : Engine A N) (cmd : Command) :
    (e.resolveImplicitStateCommand cmd).targetDevice = cmd.targetDevice := by
  rcases e.resolveImplicitStateCommand_cases cmd with h | ⟨-,h⟩
  · rw [h]
  · exact h

theorem resolveImplicitStateCommand_of_untargeted (e : Engine A N) {cmd : Command}
    (h : cmd.targetDevice = none) : e.resolveImplicitStateCommand cmd = cmd := by
  rcases e.resolveImplicitStateCommand_cases cmd with hr | ⟨hs,-⟩
  · exact hr
  · simp [h] at hs

end Updates

/-- The commands every scene holds meet `user`. -/
def ScenesIn (user : Command → Prop) (e : Engine A N) : Prop :=
  ∀ scene cmds, e.scenes.lookup scene = some cmds → ∀ c ∈ cmds, user c

/-- Arm the rules of a list that wait. -/
def armAll (fired : List Rule) (e : Engine A N) : Engine A N :=
  fired.foldl (fun e r =>
    match r.forDuration with
    | some d => e.armForTimer r.id d
    | none => e) e

/-- What arming a rule keeps, arming a list of them keeps. -/
theorem armAll_induct {I : Engine A N → Prop} {e : Engine A N} (fired : List Rule)
    (arm : ∀ r ∈ fired, ∀ after, r.forDuration = some after → ∀ b, I b →
      I (b.armForTimer r.id after)) (h : I e) : I (armAll fired e) := by
  induction fired generalizing e with
  | nil => exact h
  | cons r fired ih =>
    have rest {b : Engine A N} (hb : I b) : I (armAll fired b) :=
      ih (fun s hs => arm s (List.mem_cons_of_mem r hs)) hb
    unfold armAll
    rw [List.foldl_cons]
    cases hd : r.forDuration with
    | none => exact rest h
    | some d => exact rest (arm r List.mem_cons_self d hd e h)

variable [Adapter A]

/-- The frame of dispatching for an event of the given depth. -/
structure Dispatched (depth : ℕ) (e e' : Engine A N) : Prop where
  now : e'.now = e.now
  state : e'.state = e.state
  rules : e'.rules = e.rules
  northbound : e'.northbound = e.northbound
  deviceToAdapter : e'.deviceToAdapter = e.deviceToAdapter
  scenes : e'.scenes = e.scenes
  retry : e'.retry = e.retry
  pendingFor : e'.pendingFor = e.pendingFor
  forCounter : e'.forCounter = e.forCounter
  maxCascadeDepth : e'.maxCascadeDepth = e.maxCascadeDepth
  size : e'.adapters.size = e.adapters.size
  overflowed : e'.overflowed = false → e.overflowed = false
  trace : ∃ xs : List Entry, e'.trace = e.trace ++ xs.map (fun x => (e.now,x)) ∧
    ∀ x ∈ xs, x.isDispatch = true
  queue : ∃ evs : List Event, e'.queue = e.queue ++ evs.map (fun ev => (ev,nextDepth depth)) ∧
    ∀ ev ∈ evs, Yields A ev

namespace Dispatched
variable {depth : ℕ} {e e' e'' : Engine A N}

theorem refl (e : Engine A N) : Dispatched depth e e := by
  refine ⟨rfl,rfl,rfl,rfl,rfl,rfl,rfl,rfl,rfl,rfl,rfl,id,⟨[],?_,?_⟩,⟨[],?_,?_⟩⟩ <;> simp

theorem trans (h : Dispatched depth e e') (h' : Dispatched depth e' e'') :
    Dispatched depth e e'' := by
  obtain ⟨xs,hx,hxs⟩ := h.trace
  obtain ⟨ys,hy,hys⟩ := h'.trace
  obtain ⟨evs,he,hevs⟩ := h.queue
  obtain ⟨fvs,hf,hfvs⟩ := h'.queue
  refine ⟨h'.now.trans h.now,h'.state.trans h.state,h'.rules.trans h.rules,
    h'.northbound.trans h.northbound,h'.deviceToAdapter.trans h.deviceToAdapter,
    h'.scenes.trans h.scenes,h'.retry.trans h.retry,h'.pendingFor.trans h.pendingFor,
    h'.forCounter.trans h.forCounter,h'.maxCascadeDepth.trans h.maxCascadeDepth,
    h'.size.trans h.size,fun ho => h.overflowed (h'.overflowed ho),
    ⟨xs ++ ys,?_,?_⟩,⟨evs ++ fvs,?_,?_⟩⟩
  · rw [hy,hx,h.now]
    simp
  · simpa [or_imp,forall_and] using ⟨hxs,hys⟩
  · rw [hf,he]
    simp
  · simpa [or_imp,forall_and] using ⟨hevs,hfvs⟩

theorem of_record (e : Engine A N) {x : Entry} (hx : x.isDispatch = true) :
    Dispatched depth e (e.record x) := by
  refine ⟨rfl,rfl,rfl,rfl,rfl,rfl,rfl,rfl,rfl,rfl,rfl,id,⟨[x],?_,?_⟩,⟨[],?_,?_⟩⟩
  · simp
  · simpa using hx
  · simp [record]
  · simp

theorem of_schedule (e : Engine A N) (cmd : Command) : Dispatched depth e (e.schedule cmd) := by
  refine ⟨rfl,rfl,rfl,rfl,rfl,rfl,rfl,rfl,rfl,rfl,rfl,?_,⟨[],?_,?_⟩,⟨[],?_,?_⟩⟩
  · intro h
    exact (Bool.or_eq_false_iff.mp h).1
  all_goals simp [schedule]

theorem of_scheduleCommand (e : Engine A N) (cmd : Command) :
    Dispatched depth e (e.scheduleCommand cmd) :=
  (of_schedule e cmd).trans (of_record _ rfl)

theorem of_enqueueAll (e : Engine A N) {evs : List Event} (h : ∀ ev ∈ evs, Yields A ev) :
    Dispatched depth e (e.enqueueAll evs (nextDepth depth)) := by
  refine ⟨rfl,rfl,rfl,rfl,rfl,rfl,rfl,rfl,rfl,rfl,rfl,id,⟨[],?_,?_⟩,⟨evs,rfl,h⟩⟩ <;>
    simp [enqueueAll]

theorem of_giveUp (e : Engine A N) (cmd : Command) (reason : String) (attempts serial : ℕ) :
    Dispatched depth e (e.giveUp cmd reason attempts serial depth) :=
  ((of_record e rfl).trans (of_record _ rfl)).trans
    (of_enqueueAll _ (by simp [Yields] : ∀ ev ∈ [_], _))

theorem of_scheduleRetry (e : Engine A N) (cmd : Command) (failedAttempt serial : ℕ) :
    Dispatched depth e (e.scheduleRetry cmd failedAttempt serial) := by
  let e₁ : Engine A N := { e with retryCounter := e.retryCounter+1 }
  let e₂ := e₁.notify (.retryScheduled cmd (failedAttempt+1) (e.retry.backoff failedAttempt))
  let e₃ := { e₂ with
    retries := e₂.retries.insert (retryKey e₁.retryCounter) ⟨cmd,failedAttempt+1,serial⟩ }
  have h₁ : Dispatched depth e e₁ := by
    refine ⟨rfl,rfl,rfl,rfl,rfl,rfl,rfl,rfl,rfl,rfl,rfl,id,⟨[],?_,?_⟩,⟨[],?_,?_⟩⟩ <;> simp [e₁]
  have h₃ : Dispatched depth e₂ e₃ := by
    refine ⟨rfl,rfl,rfl,rfl,rfl,rfl,rfl,rfl,rfl,rfl,rfl,id,⟨[],?_,?_⟩,⟨[],?_,?_⟩⟩ <;> simp [e₃]
  exact ((h₁.trans (of_record _ rfl)).trans h₃).trans (of_schedule _ _)

theorem of_handleOutcome (e : Engine A N) {outcome : DispatchOutcome} (cmd : Command)
    (attempt serial : ℕ) (h : ∀ evs, outcome = .ok evs → ∀ ev ∈ evs, Yields A ev) :
    Dispatched depth e (e.handleOutcome outcome cmd attempt serial depth) := by
  cases outcome with
  | ok evs => exact of_enqueueAll e (h evs rfl)
  | transient reason =>
    simp only [handleOutcome]
    split_ifs
    · exact (of_record e rfl).trans (of_scheduleRetry _ _ _ _)
    · exact (of_record e rfl).trans (of_giveUp _ _ _ _ _)
  | permanent reason => exact (of_record e rfl).trans (of_giveUp _ _ _ _ _)

theorem of_issue (e : Engine A N) (cmd : Command) (origin : Option ℕ) :
    Dispatched depth e (e.issue cmd origin).2 := by
  cases origin with
  | some serial => exact refl e
  | none =>
    have h : Dispatched depth e { e with serials := e.serials+1 } := by
      refine ⟨rfl,rfl,rfl,rfl,rfl,rfl,rfl,rfl,rfl,rfl,rfl,id,⟨[],?_,?_⟩,⟨[],?_,?_⟩⟩ <;> simp
    exact h.trans (of_record _ rfl)

end Dispatched

/-- What `dispatch_device` does once the command has its serial: hand it over, or fail it for
want of an adapter. -/
inductive Routed (cmd : Command) (attempt serial depth : ℕ) (e : Engine A N) : Engine A N → Prop
  | bound (idx : AdapterIdx) (outcome : DispatchOutcome) (adapters : AdapterTable A)
      (bound : cmd.targetDevice.bind e.deviceToAdapter.lookup = some idx)
      (handed : e.adapters.dispatch idx cmd e.now = some (outcome,adapters)) :
      Routed cmd attempt serial depth e
        (((e.handOver idx cmd adapters).record
          (.handed idx cmd attempt serial outcome)).handleOutcome outcome cmd attempt serial depth)
  | unbound (unbound : cmd.targetDevice.bind e.deviceToAdapter.lookup = none) :
      Routed cmd attempt serial depth e
        (e.handleOutcome (.permanent "no adapter bound for target device") cmd attempt serial depth)

/-- A command whose device is bound to a slot of the table is handed to the adapter there. -/
theorem dispatchDevice_of_bound {cmd : Command} {attempt depth : ℕ} {origin : Option ℕ}
    {e : Engine A N} {idx : AdapterIdx} {outcome : DispatchOutcome} {adapters : AdapterTable A}
    (bound : cmd.targetDevice.bind (e.issue cmd origin).2.deviceToAdapter.lookup = some idx)
    (handed : (e.issue cmd origin).2.adapters.dispatch idx cmd (e.issue cmd origin).2.now =
      some (outcome,adapters)) :
    dispatchDevice cmd attempt origin depth e =
      .ok ((((e.issue cmd origin).2.handOver idx cmd adapters).record
        (.handed idx cmd attempt (e.issue cmd origin).1 outcome)).handleOutcome outcome cmd attempt
          (e.issue cmd origin).1 depth) := by
  simp only [dispatchDevice,bound,handed]

theorem dispatchDevice_routed {cmd : Command} {attempt depth : ℕ} {origin : Option ℕ}
    {e e' : Engine A N} (h : dispatchDevice cmd attempt origin depth e = .ok e') :
    Routed cmd attempt (e.issue cmd origin).1 depth (e.issue cmd origin).2 e' := by
  simp only [dispatchDevice] at h
  split at h
  · rename_i idx hb
    split at h
    · rename_i outcome adapters ho
      cases h
      exact .bound idx outcome adapters hb ho
    · cases h
  · rename_i hb
    cases h
    exact .unbound hb

/-- An outcome the table returns is the scheduler's empty one or an adapter's. -/
theorem yields_of_dispatch {t t' : AdapterTable A} {idx : AdapterIdx} {cmd : Command}
    {now : Millis} {evs : List Event} (h : t.dispatch idx cmd now = some (.ok evs,t')) :
    ∀ ev ∈ evs, Yields A ev := by
  intro ev hev
  cases idx with
  | zero =>
    simp only [AdapterTable.dispatch,SchedulerAdapter.dispatch_fst,Option.some.injEq,
      Prod.mk.injEq,DispatchOutcome.ok.injEq] at h
    simp [← h.1] at hev
  | succ i =>
    simp only [AdapterTable.dispatch] at h
    split at h
    · rename_i a ha
      have ho := (Prod.mk.inj (Option.some.inj h)).1
      exact .inl ⟨a,cmd,now,evs,ho,hev⟩
    · cases h

/-- The table keeps its slots. -/
theorem size_of_dispatch {t t' : AdapterTable A} {idx : AdapterIdx} {cmd : Command} {now : Millis}
    {outcome : DispatchOutcome} (h : t.dispatch idx cmd now = some (outcome,t')) :
    t'.size = t.size := by
  cases idx with
  | zero =>
    cases h
    rfl
  | succ i =>
    simp only [AdapterTable.dispatch] at h
    split at h
    · cases h
      simp [AdapterTable.size]
    · cases h

/-- A device command never reaches the timers of the scheduler. -/
theorem scheduler_of_dispatch {t t' : AdapterTable A} {idx : AdapterIdx} {cmd : Command}
    {now : Millis} {outcome : DispatchOutcome} (hc : cmd.targetDevice.isSome)
    (h : t.dispatch idx cmd now = some (outcome,t')) : t'.scheduler = t.scheduler := by
  cases idx with
  | zero =>
    cases h
    cases cmd <;> first | rfl | simp [Command.targetDevice] at hc
  | succ i =>
    simp only [AdapterTable.dispatch] at h
    split at h
    · cases h
      rfl
    · cases h

theorem Routed.dispatched {cmd : Command} {attempt serial depth : ℕ} {e e' : Engine A N}
    (h : Routed cmd attempt serial depth e e') : Dispatched depth e e' := by
  cases h with
  | bound idx outcome adapters hb ho =>
    have h : Dispatched depth e (e.handOver idx cmd adapters) := by
      refine ⟨rfl,rfl,rfl,rfl,rfl,rfl,rfl,rfl,rfl,rfl,size_of_dispatch ho,id,⟨[],?_,?_⟩,⟨[],?_,?_⟩⟩ <;>
        simp
    refine (h.trans (.of_record _ rfl)).trans (.of_handleOutcome _ _ _ _ ?_)
    rintro evs rfl
    exact yields_of_dispatch ho
  | unbound hb => exact .of_handleOutcome _ _ _ _ (by rintro evs ⟨⟩)

theorem dispatchDevice_dispatched {cmd : Command} {attempt depth : ℕ} {origin : Option ℕ}
    {e e' : Engine A N} (h : dispatchDevice cmd attempt origin depth e = .ok e') :
    Dispatched depth e e' :=
  (Dispatched.of_issue e cmd origin).trans (dispatchDevice_routed h).dispatched

/-- A device command calls at most one adapter, and leaves the others as they are. -/
theorem dispatchDevice_rest {cmd : Command} {attempt depth : ℕ} {origin : Option ℕ}
    {e e' : Engine A N} (h : dispatchDevice cmd attempt origin depth e = .ok e') :
    e'.adapters.rest = e.adapters.rest ∨ ∃ i a now, e.adapters.rest[i]? = some a ∧
      e'.adapters.rest = e.adapters.rest.set i (Adapter.dispatch a cmd now).2 := by
  have hi : (e.issue cmd origin).2.adapters = e.adapters := by cases origin <;> rfl
  have hr := dispatchDevice_routed h
  generalize (e.issue cmd origin).2 = e₁ at hr hi
  have handled (e₂ : Engine A N) (outcome : DispatchOutcome) (serial : ℕ) :
      (e₂.handleOutcome outcome cmd attempt serial depth).adapters.rest = e₂.adapters.rest := by
    cases outcome with
    | ok | permanent => rfl
    | transient =>
      simp only [handleOutcome]
      split_ifs <;> rfl
  cases hr with
  | bound idx outcome adapters _ handed =>
    rw [handled]
    rw [hi] at handed
    cases idx with
    | zero =>
      cases handed
      exact .inl rfl
    | succ i =>
      simp only [AdapterTable.dispatch] at handed
      split at handed
      · rename_i a ha
        cases handed
        exact .inr ⟨i,a,_,ha,rfl⟩
      · cases handed
  | unbound =>
    rw [handled,hi]
    exact .inl rfl

/-- One elementary effect of dispatching a fresh command. Timer commands meet `user`. -/
inductive Act (user : Command → Prop) (depth : ℕ) (e : Engine A N) : Engine A N → Prop
  | dispatched (cmd : Command) : Act user depth e (e.notify (.commandDispatched cmd depth))
  | expanded (scene : SceneId) (count : ℕ) : Act user depth e (e.notify (.sceneExpanded scene count))
  | timer (cmd : Command) (timer : cmd.isTimer = true) (h : user cmd) :
      Act user depth e (e.scheduleCommand cmd)
  | device (cmd : Command) (target : cmd.targetDevice.isSome) (e' : Engine A N)
      (h : dispatchDevice cmd 1 none depth e = .ok e') : Act user depth e e'

theorem Act.frame {user : Command → Prop} {depth : ℕ} {e e' : Engine A N}
    (h : Act user depth e e') : Dispatched depth e e' := by
  cases h with
  | dispatched cmd => exact .of_record e rfl
  | expanded scene count => exact .of_record e rfl
  | timer cmd _ _ => exact .of_scheduleCommand e cmd
  | device cmd _ e' h => exact dispatchDevice_dispatched h

theorem acts_frame {user : Command → Prop} {depth : ℕ} {e e' : Engine A N}
    (h : ReflTransGen (Act user depth) e e') : Dispatched depth e e' := by
  induction h with
  | refl => exact .refl e
  | tail _ h ih => exact ih.trans h.frame

/-- The last branches of `dispatch_at`, for a command that names a device. -/
theorem dispatchAt_device {fuel attempt depth : ℕ} {cmd : Command} {origin : Option ℕ}
    {e : Engine A N} (target : cmd.targetDevice.isSome) :
    dispatchAt (fuel+1) cmd attempt origin depth e =
      dispatchDevice (e.resolveImplicitStateCommand cmd) attempt origin depth
        (e.notify (.commandDispatched (e.resolveImplicitStateCommand cmd) depth)) := by
  have ht : (e.resolveImplicitStateCommand cmd).targetDevice.isSome := by
    rwa [resolveImplicitStateCommand_targetDevice]
  rw [dispatchAt]
  generalize e.resolveImplicitStateCommand cmd = c at ht ⊢
  cases c <;> first | rfl | simp [Command.targetDevice] at ht

/-- Dispatching a fresh command is a sequence of elementary effects. -/
theorem dispatchAt_acts (user : Command → Prop) {fuel depth : ℕ} {cmd : Command}
    {e e' : Engine A N} (hc : user cmd) (hs : e.ScenesIn user)
    (h : dispatchAt fuel cmd 1 none depth e = .ok e') :
    ReflTransGen (Act user depth) e e' := by
  induction fuel generalizing cmd e e' with
  | zero => cases h
  | succ fuel ih =>
    by_cases ht : cmd.targetDevice.isSome
    · rw [dispatchAt_device ht] at h
      refine .tail (.single (.dispatched _)) (.device _ ?_ _ h)
      rwa [resolveImplicitStateCommand_targetDevice]
    · have hr := e.resolveImplicitStateCommand_of_untargeted (by simpa using ht : cmd.targetDevice = none)
      rw [dispatchAt,hr] at h
      refine .head (.dispatched cmd) ?_
      cases cmd with
      | activateScene scene =>
        dsimp only at h
        split at h
        · rename_i cmds hl
          refine .head (.expanded scene cmds.length) ?_
          -- every member starts from an engine with the same scenes
          refine foldlM_ok_induct (I := fun b => ReflTransGen (Act user depth) _ b) ?_ .refl h
          intro c hcm b b' hb hd
          have hsb : b.ScenesIn user := by
            intro s cs hl'
            rw [(acts_frame hb).scenes] at hl'
            exact hs s cs hl'
          exact hb.trans (ih (hs scene cmds hl c hcm) hsb hd)
        · cases h
          exact .refl
      | scheduleTimer key after | cancelTimer key =>
        cases h
        exact .single (.timer _ rfl hc)
      | _ => simp [Command.targetDevice] at ht

theorem ScenesIn.of_frame {user : Command → Prop} {depth : ℕ} {e e' : Engine A N}
    (hs : e.ScenesIn user) (h : Dispatched depth e e') : e'.ScenesIn user := by
  intro scene cmds hl
  rw [h.scenes] at hl
  exact hs scene cmds hl

theorem dispatchAll_acts (user : Command → Prop) {fuel depth : ℕ} {cmds : List Command}
    {e e' : Engine A N} (hc : ∀ c ∈ cmds, user c) (hs : e.ScenesIn user)
    (h : dispatchAll fuel cmds depth e = .ok e') : ReflTransGen (Act user depth) e e' := by
  refine foldlM_ok_induct (I := fun b => ReflTransGen (Act user depth) e b) ?_ .refl h
  intro c hcm b b' hb hd
  exact hb.trans (dispatchAt_acts user (hc c hcm) (hs.of_frame (acts_frame hb)) hd)

/-- Whatever the attempt, a dispatch is that of a device command, or a sequence of elementary effects:
scenes and timers ignore the attempt and the serial. -/
theorem dispatchAt_cases {fuel attempt depth : ℕ} {cmd : Command} {origin : Option ℕ}
    {e e' : Engine A N} (h : dispatchAt fuel cmd attempt origin depth e = .ok e') :
    (cmd.targetDevice.isSome ∧ dispatchDevice (e.resolveImplicitStateCommand cmd) attempt origin depth
      (e.notify (.commandDispatched (e.resolveImplicitStateCommand cmd) depth)) = .ok e') ∨
    ReflTransGen (Act (fun _ => True) depth) e e' := by
  by_cases ht : cmd.targetDevice.isSome
  · cases fuel with
    | zero => cases h
    | succ fuel => exact .inl ⟨ht,by rwa [dispatchAt_device ht] at h⟩
  · have hf : dispatchAt fuel cmd 1 none depth e = .ok e' := by
      cases fuel with
      | zero => cases h
      | succ fuel =>
        rw [dispatchAt,e.resolveImplicitStateCommand_of_untargeted (by simpa using ht)] at h ⊢
        cases cmd <;> first | exact h | simp [Command.targetDevice] at ht
    exact .inr (dispatchAt_acts (fun _ => True) trivial (fun _ _ _ _ _ => trivial) hf)

/-- The frame of a whole dispatch, whatever the command. -/
theorem dispatchAt_frame {fuel attempt depth : ℕ} {cmd : Command} {origin : Option ℕ}
    {e e' : Engine A N} (h : dispatchAt fuel cmd attempt origin depth e = .ok e') :
    Dispatched depth e e' := by
  rcases dispatchAt_cases h with ⟨-,h⟩ | h
  · exact (Dispatched.of_record e rfl).trans (dispatchDevice_dispatched h)
  · exact acts_frame h

/-- The rules that wait are armed, then the others are dispatched. -/
theorem runFired_eq_foldlM (fuel : ℕ) (fired : List Rule) (depth : ℕ) (e : Engine A N) :
    runFired fuel fired depth e =
      (fired.filter fun r => r.forDuration.isNone).foldlM (fun e r => fire fuel r depth e)
        (armAll fired e) := rfl

/-- What arming keeps and firing the rules that need not wait keeps, reacting with a list of rules
keeps. -/
theorem runFired_induct {I : Engine A N → Prop} {fuel depth : ℕ} {fired : List Rule}
    {e e' : Engine A N} (arm : ∀ r ∈ fired, ∀ after, r.forDuration = some after → ∀ b, I b →
      I (b.armForTimer r.id after))
    (fires : ∀ r ∈ fired, r.forDuration = none → ∀ b b', I b → fire fuel r depth b = .ok b' → I b')
    (h : runFired fuel fired depth e = .ok e') (start : I e) : I e' := by
  rw [runFired_eq_foldlM] at h
  refine foldlM_ok_induct ?_ (armAll_induct fired arm start) h
  intro r hr b b' hb hf
  obtain ⟨hm,hn⟩ := List.mem_filter.mp hr
  exact fires r hm (Option.isNone_iff_eq_none.mp hn) b b' hb hf

end Engine
end Domiform
