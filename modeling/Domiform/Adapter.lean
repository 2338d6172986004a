import Domiform.Rule

/-! Adapters: the only place protocols, or time, exist.
An adapter is a state with the three operations of the trait; what it hears from outside is
part of that state. -/
namespace Domiform
open Library

/-- The result of dispatching one command. -/
inductive DispatchOutcome
  | ok (events : List Event)
  | transient (reason : String)
  | permanent (reason : String)
  deriving DecidableEq

class Adapter (A : Type) where
  dispatch : A → Command → Millis → DispatchOutcome × A
  tick : A → Millis → List Event × A := fun a _ => ([],a)
  nextWake : A → Millis → Option Millis := fun _ _ => none

/-- A northbound adapter also hears every folded state change. -/
class NorthboundAdapter (N : Type) extends Adapter N where
  stateFolded : N → DeviceId → CapabilityState → N

/-- No answer to a command is the expiry of a timer. -/
def Adapter.DispatchTimerless (A : Type) [Adapter A] : Prop :=
  ∀ (a : A) cmd now evs, (Adapter.dispatch a cmd now).1 = .ok evs →
    ∀ ev ∈ evs, ev.isTimerElapsed = false

/-- Nothing an adapter hears on its own is the expiry of a timer. -/
def Adapter.TickTimerless (A : Type) [Adapter A] : Prop :=
  ∀ (a : A) now, ∀ ev ∈ (Adapter.tick a now).1, ev.isTimerElapsed = false

/-- Pending timers, keyed by name, with absolute fire times. -/
structure SchedulerAdapter where
  pending : HashMap TimerKey Millis

namespace SchedulerAdapter

def dispatch (s : SchedulerAdapter) (cmd : Command) (now : Millis) :
    DispatchOutcome × SchedulerAdapter :=
  match cmd with
  | .scheduleTimer key after => (.ok [],⟨s.pending.insert key (addMillis now after)⟩)
  | .cancelTimer key => (.ok [],⟨s.pending.erase key⟩)
  | _ => (.ok [],s)

/-- Fire time first, then the key. -/
def dueLe (a b : Millis × TimerKey) : Prop := a.1 < b.1 ∨ a.1 = b.1 ∧ a.2.name ≤ b.2.name

instance : DecidableRel dueLe := fun _ _ => inferInstanceAs (Decidable (_ ∨ _ ∧ _))

instance : Std.Total dueLe where
  total a b := by
    rcases Nat.lt_trichotomy a.1 b.1 with h | h | h
    · exact .inl (.inl h)
    · rcases String.le_total a.2.name b.2.name with hn | hn
      · exact .inl (.inr ⟨h,hn⟩)
      · exact .inr (.inr ⟨h.symm,hn⟩)
    · exact .inr (.inl h)

instance : IsTrans (Millis × TimerKey) dueLe where
  trans a b c := by
    rintro (h | ⟨h,hn⟩) (h' | ⟨h',hn'⟩)
    · exact .inl (Nat.lt_trans h h')
    · exact .inl (h' ▸ h)
    · exact .inl (h ▸ h')
    · exact .inr ⟨h.trans h',String.le_trans hn hn'⟩

instance : Std.Antisymm dueLe where
  antisymm a b := by
    obtain ⟨t,⟨name⟩⟩ := a
    obtain ⟨t',⟨name'⟩⟩ := b
    rintro (h | ⟨h,hn⟩) (h' | ⟨h',hn'⟩)
    · exact absurd h' (Nat.lt_asymm h)
    · exact absurd h'.symm (Nat.ne_of_lt h)
    · exact absurd h.symm (Nat.ne_of_lt h')
    · cases h
      cases String.le_antisymm hn hn'
      rfl

/-- The timers due at `now`, sorted by fire time and key. -/
def due (π : HashOrder) (n : ℕ) (s : SchedulerAdapter) (now : Millis) : List (Millis × TimerKey) :=
  (((HashMap.iter π n s.pending).filter fun e => decide (e.2 ≤ now)).map
    fun e => (e.2,e.1)).insertionSort dueLe

def tick (π : HashOrder) (n : ℕ) (s : SchedulerAdapter) (now : Millis) :
    List Event × SchedulerAdapter :=
  let keys := (s.due π n now).map Prod.snd
  (keys.map Event.timerElapsed,⟨keys.foldl (fun m key => m.erase key) s.pending⟩)

/-- Natural subtraction saturates like `saturating_sub`. -/
def nextWake (π : HashOrder) (n : ℕ) (s : SchedulerAdapter) (now : Millis) : Option Millis :=
  (((HashMap.iter π n s.pending).map Prod.snd).min?).map fun fireAt => fireAt-now

@[simp] theorem dispatch_fst (s : SchedulerAdapter) (cmd : Command) (now : Millis) :
    (s.dispatch cmd now).1 = .ok [] := by
  cases cmd <;> rfl

theorem mem_due {π : HashOrder} {n : ℕ} {s : SchedulerAdapter} {now t : Millis} {key : TimerKey} :
    (t,key) ∈ s.due π n now ↔ s.pending.lookup key = some t ∧ t ≤ now := by
  simp [due,List.mem_insertionSort]

/-- The sort hides the order in which the timers are collected. -/
theorem due_eq (π π' : HashOrder) (n n' : ℕ) (s : SchedulerAdapter) (now : Millis) :
    s.due π n now = s.due π' n' now := by
  have hp : (s.due π n now).Perm (s.due π' n' now) :=
    ((List.perm_insertionSort dueLe _).trans (((HashMap.iter_perm π π' n n' s.pending).filter _).map
      _)).trans (List.perm_insertionSort dueLe _).symm
  exact hp.eq_of_pairwise' (List.pairwise_insertionSort dueLe _) (List.pairwise_insertionSort dueLe _)

/-- Exactly the keys whose time has come elapse. -/
theorem mem_due_keys {π : HashOrder} {n : ℕ} {s : SchedulerAdapter} {now : Millis}
    {key : TimerKey} : key ∈ (s.due π n now).map Prod.snd ↔
      ∃ t, s.pending.lookup key = some t ∧ t ≤ now := by
  simp [mem_due]

theorem due_keys_nodup (π : HashOrder) (n : ℕ) (s : SchedulerAdapter) (now : Millis) :
    ((s.due π n now).map Prod.snd).Nodup := by
  have hp : ((s.due π n now).map Prod.snd).Perm
      (((HashMap.iter π n s.pending).filter fun e => decide (e.2 ≤ now)).map Prod.fst) := by
    have := (List.perm_insertionSort dueLe (((HashMap.iter π n s.pending).filter
      fun e => decide (e.2 ≤ now)).map fun e => (e.2,e.1))).map Prod.snd
    simpa [due,List.map_map,Function.comp_def] using this
  rw [hp.nodup_iff]
  exact (HashMap.iter_keys_nodup π n _).sublist (List.filter_sublist.map Prod.fst)

/-- A tick takes out what it reports and leaves every other timer. -/
theorem lookup_tick (π : HashOrder) (n : ℕ) (s : SchedulerAdapter) (now : Millis)
    (key : TimerKey) : (s.tick π n now).2.pending.lookup key =
      if ∃ t, s.pending.lookup key = some t ∧ t ≤ now then none else s.pending.lookup key := by
  simp only [tick,HashMap.lookup_foldl_erase,mem_due_keys]

theorem lookup_scheduleTimer (s : SchedulerAdapter) (key k : TimerKey) (after now : Millis) :
    (s.dispatch (.scheduleTimer key after) now).2.pending.lookup k =
      if k = key then some (addMillis now after) else s.pending.lookup k :=
  HashMap.lookup_insert _ _ _ _

theorem lookup_cancelTimer (s : SchedulerAdapter) (key k : TimerKey) (now : Millis) :
    (s.dispatch (.cancelTimer key) now).2.pending.lookup k =
      if k = key then none else s.pending.lookup k :=
  HashMap.lookup_erase _ _ _

end SchedulerAdapter

/-- Devices without physical backing: every commanded state is echoed as a report. -/
structure VirtualDeviceAdapter where
  deriving DecidableEq

/-- The state a command sets, when it sets one. -/
def Command.echo : Command → Option CapabilityState
  | .setSwitch _ on => some (.switch on)
  | .setBrightness _ value _ => some (.brightness value)
  | .setColor _ r g b _ => some (.color r g b)
  | .setColorTemperature _ mireds _ => some (.colorTemperature mireds)
  | _ => none

namespace VirtualDeviceAdapter

def dispatch (cmd : Command) : DispatchOutcome :=
  match cmd.echo,cmd.targetDevice with
  | some state,some device => .ok [.stateReported device state]
  | _,_ => .ok []

instance : Adapter VirtualDeviceAdapter where
  dispatch a cmd _ := (dispatch cmd,a)

theorem dispatchTimerless : Adapter.DispatchTimerless VirtualDeviceAdapter := by
  intro _ cmd _ evs h ev hev
  cases cmd <;> cases h <;> simp at hev <;> subst hev <;> rfl

theorem tickTimerless : Adapter.TickTimerless VirtualDeviceAdapter :=
  fun _ _ _ h => absurd h List.not_mem_nil

end VirtualDeviceAdapter

/-- A stand-in device adapter that echoes the commanded state. -/
structure MockDeviceAdapter where
  deriving DecidableEq

namespace MockDeviceAdapter

def dispatch : Command → DispatchOutcome
  | .setSwitch device on => .ok [.stateReported device (.switch on)]
  | .setBrightness device value _ => .ok [.stateReported device (.brightness value)]
  | .setColor device r g b _ => .ok [.stateReported device (.color r g b)]
  | .setColorTemperature device mireds _ => .ok [.stateReported device (.colorTemperature mireds)]
  | .sendIrCode _ _ => .ok []
  | _ => .ok []

instance : Adapter MockDeviceAdapter where
  dispatch a cmd _ := (dispatch cmd,a)

/-- The internal mock and the user-facing virtual adapter answer every command alike. -/
theorem dispatch_eq_virtual (cmd : Command) :
    dispatch cmd = VirtualDeviceAdapter.dispatch cmd := by
  cases cmd <;> rfl

end MockDeviceAdapter

/-- The in-memory northbound adapter: it records what is folded, and its queued consumer
writes and scene activations become requests on the next tick. -/
structure MockNorthbound where
  mirrored : List (DeviceId × CapabilityState)
  pendingWrites : List (DeviceId × Desired)
  pendingScenes : List SceneId

namespace MockNorthbound

def tick (m : MockNorthbound) : List Event × MockNorthbound :=
  (m.pendingWrites.map (fun w => .requestedChange w.1 w.2) ++
    m.pendingScenes.map .requestedScene,
    { m with pendingWrites := [],pendingScenes := [] })

instance : NorthboundAdapter MockNorthbound where
  dispatch m _ _ := (.permanent "northbound adapter is not a dispatch target",m)
  tick m _ := m.tick
  stateFolded m device state := { m with mirrored := m.mirrored ++ [(device,state)] }

theorem tickTimerless : Adapter.TickTimerless MockNorthbound := by
  intro m now ev h
  rcases List.mem_append.mp h with h | h
  · obtain ⟨w,-,rfl⟩ := List.mem_map.mp h
    rfl
  · obtain ⟨scene,-,rfl⟩ := List.mem_map.mp h
    rfl

end MockNorthbound
end Domiform
