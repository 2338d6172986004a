import Domiform.Library.Monitor
import Domiform.RestApi.Delivery

/-! The threads behind the streams. Every writer thread waits in `next_batch` on the condition
variable of the broadcaster; the engine thread pushes frames under the mutex and notifies after it;
`shutdown` sets its flag and notifies, without the mutex. -/
namespace Domiform.Stream
open Library Relation

/-- What is done to the registry from outside `next_batch`. -/
inductive RegistryEdit
  | subscribe
  | broadcast (frame : Frame)
  | drop (id : ℕ)

namespace RegistryEdit

def apply : RegistryEdit → Registry → Registry
  | subscribe,r => r.subscribe.2
  | broadcast frame,r => if r.subscribers.isEmpty then r else r.broadcast frame
  | drop id,r => r.remove id

/-- A frame for nobody is not announced. -/
def notifies : RegistryEdit → Registry → Bool
  | broadcast _,r => !r.subscribers.isEmpty
  | _,_ => false

/-- A subscription is dropped by the thread that holds it, out of `next_batch`. -/
def allowed : RegistryEdit → (ℕ → Caller) → Prop
  | drop id,phase => phase id = .out
  | _,_ => True

end RegistryEdit

def Batch.isIdle : Batch → Bool
  | idle => true
  | _ => false

namespace Registry
variable {r r' : Registry} {id : ℕ}

/-- What a look under the mutex finds; nothing, if the mailbox is empty. -/
def look (id : ℕ) (r : Registry) : Option (Batch × Registry) :=
  if (r.nextBatch id).1.isIdle then none else some (r.nextBatch id)

theorem look_eq_none_iff : r.look id = none ↔ (r.nextBatch id).1 = .idle := by
  rw [look]
  cases (r.nextBatch id).1 <;> simp [Batch.isIdle]

theorem look_eq_some {found : Batch × Registry} (h : r.look id = some found) :
    r.nextBatch id = found := by
  rw [look] at h
  split_ifs at h
  exact Option.some.inj h

/-- A look depends on the looker's own mailbox only. -/
theorem idle_congr (h : r'.subscriber id = r.subscriber id) (idle : r.look id = none) :
    r'.look id = none := by
  rw [look_eq_none_iff,nextBatch] at idle ⊢
  rw [h]
  cases hs : r.subscriber id with
  | none => simp [hs] at idle
  | some s =>
    simp only [hs] at idle ⊢
    split_ifs at idle with he
    rw [if_pos he]

theorem subscriber_of_idle (idle : r.look id = none) : ∃ s, r.subscriber id = some s := by
  rw [look_eq_none_iff,nextBatch] at idle
  cases hs : r.subscriber id with
  | none => simp [hs] at idle
  | some s => exact ⟨s,rfl⟩

end Registry

/-- The registry as the writers and the engine thread share it. -/
def writers : Interface Registry ℕ RegistryEdit Batch where
  look := Registry.look
  stop := .done
  edit := RegistryEdit.apply
  notifies := RegistryEdit.notifies
  allowed := RegistryEdit.allowed
  apart := by
    intro w w' r r' b found hw idle
    have hr : (r.nextBatch w).2 = r' := by rw [Registry.look_eq_some found]
    exact Registry.idle_congr (hr ▸ Registry.subscriber_nextBatch_other hw r) idle
  quiet := by
    intro e phase w r allowed asleep quiet idle
    cases e with
    | subscribe =>
      obtain ⟨s,hs⟩ := Registry.subscriber_of_idle idle
      exact Registry.idle_congr ((Registry.subscriber_subscribe_old hs).trans hs.symm) idle
    | broadcast frame =>
      have empty : r.subscribers.isEmpty = true := by simpa [RegistryEdit.notifies] using quiet
      rwa [RegistryEdit.apply,if_pos empty]
    | drop id =>
      have other : w ≠ id := by
        rintro rfl
        cases asleep.symm.trans allowed
      exact Registry.idle_congr (Registry.subscriber_remove other r) idle

/-- The operation that an access to the registry is. -/
def operation : Access ℕ RegistryEdit → Op
  | .call id => .nextBatch id
  | .edit .subscribe => .subscribe
  | .edit (.broadcast frame) => .broadcast frame
  | .edit (.drop id) => .drop id
  | .raise => .shutdown

/-- What a subscriber was given by an operation. -/
def Served.given : Served → List (ℕ × Batch)
  | batch _ .idle => []
  | batch id b => [(id,b)]
  | _ => []

namespace Broadcaster

def ofObject (o : Object Registry) : Broadcaster := ⟨o.shared,o.raised⟩

theorem step_operation (o : Object Registry) (x : Access ℕ RegistryEdit) :
    ((ofObject o).step (operation x)).1.given = (o.step writers x).1 ∧
      ((ofObject o).step (operation x)).2 = ofObject (o.step writers x).2 := by
  cases x with
  | raise => exact ⟨rfl,rfl⟩
  | edit e =>
    cases e with
    | subscribe | drop id => exact ⟨rfl,rfl⟩
    | broadcast frame =>
      refine ⟨rfl,?_⟩
      change Broadcaster.mk (o.shared.broadcast frame) o.raised =
        ⟨if o.shared.subscribers.isEmpty then o.shared else o.shared.broadcast frame,o.raised⟩
      split_ifs with empty
      · rw [Registry.broadcast,List.isEmpty_iff.mp empty,List.map_nil,← List.isEmpty_iff.mp empty]
      · rfl
  | call id =>
    obtain ⟨r,raised⟩ := o
    cases raised with
    | true => exact ⟨rfl,rfl⟩
    | false =>
      change (Served.batch id (r.nextBatch id).1).given = _ ∧ Broadcaster.mk (r.nextBatch id).2 false = _
      rw [Object.step]
      cases hl : r.look id with
      | none =>
        have idle := Registry.look_eq_none_iff.mp hl
        have still := Registry.nextBatch_still (by rw [idle]; rintro _ _ ⟨⟩)
        simp [writers,hl,idle,still,Served.given,ofObject]
      | some found =>
        have hn := Registry.look_eq_some hl
        have busy : (r.nextBatch id).1 ≠ .idle := fun h => by
          rw [Registry.look_eq_none_iff.mpr h] at hl
          cases hl
        rw [hn] at busy ⊢
        simp [writers,hl,Served.given,ofObject]

theorem run_operations (xs : List (Access ℕ RegistryEdit)) :
    (run (xs.map operation)).1.flatMap Served.given = (Object.run writers xs ⟨.default,false⟩).1 ∧
      (run (xs.map operation)).2 = ofObject (Object.run writers xs ⟨.default,false⟩).2 := by
  induction xs using List.reverseRecOn with
  | nil => exact ⟨rfl,rfl⟩
  | append_singleton xs x ih =>
    obtain ⟨hg,hs⟩ := ih
    obtain ⟨hg',hs'⟩ := step_operation (Object.run writers xs ⟨.default,false⟩).2 x
    rw [List.map_append,List.map_singleton,run_concat,Object.run_append,hs]
    refine ⟨?_,hs'⟩
    rw [List.flatMap_append,hg,List.flatMap_singleton,hg']
    simp [Object.run]

end Broadcaster

variable {m : Monitor Registry ℕ RegistryEdit Batch}

/-- For every interleaving of the writer threads with the engine thread, the subscriptions and the
shutdown: there is one order of what was done, as it was done under the mutex, with the edits and the
shutdown in the order they came, in which the writers are given what one broadcaster gives, operation
after operation, and the registry and the flag are its own; a writer that sleeps, with nobody about to
notify, has no frame to wait for; and after the shutdown a writer returns from `next_batch` at most
once without giving up. -/
theorem writers_share_one_broadcaster
    (run : ReflTransGen (Monitor.Step writers) (.start .default) m) :
    (∃ done : List (Access ℕ RegistryEdit),
      done.filter Access.guarded = m.log.filter Access.guarded ∧
      done.filter Access.outer = m.log.filter Access.outer ∧
      m.given = (Broadcaster.run (done.map operation)).1.flatMap Served.given ∧
      ⟨m.shared,m.raised⟩ = (Broadcaster.run (done.map operation)).2 ∧
      ∀ id, m.phase id = .asleep → m.owing = 0 →
        since id (Broadcaster.run (done.map operation)).1 = some []) ∧
    ∀ id, m.late id ≤ 1 := by
  have kept := (Monitor.kept_start (I := writers) Registry.default).run run
  obtain ⟨done,ho,guarded,outer⟩ := Monitor.linear_run run
  obtain ⟨hb,hs⟩ := Broadcaster.run_operations done
  rw [ho] at hb hs
  refine ⟨⟨done,guarded,outer,hb.symm,hs.symm,fun id asleep silent => ?_⟩,fun id => ?_⟩
  · have idle := kept.alert id asleep silent
    obtain ⟨s,hsub⟩ := Registry.subscriber_of_idle idle
    have empty := (Registry.nextBatch_idle hsub (Registry.look_eq_none_iff.mp idle)).1
    have held := (Broadcaster.run_accounts (done.map operation)).held id
    rw [hs] at held
    change m.shared.subscriber id = _ at held
    rw [hsub] at held
    obtain ⟨frames,hf,hm⟩ := Option.map_eq_some_iff.mp held.symm
    rw [hf]
    have pos : 0 < queueCapacity := by decide
    have hq := congrArg Subscriber.queue hm
    simp only [mailbox,empty] at hq
    have nil := (newest_eq_nil_iff pos).mp hq
    rw [nil]
  · have := kept.prompt id
    omega

/-- A writer goes to sleep, a frame comes, and the notification hands it over. -/
theorem sleeper_is_given_the_frame : ∃ m : Monitor Registry ℕ RegistryEdit Batch,
    ReflTransGen (Monitor.Step writers) (.start .default) m ∧
      m.log = [.edit .subscribe,.call 0,.edit (.broadcast (.rule ⟨0⟩ .true true)),.call 0] ∧
      m.given = [(0,.frames [.rule ⟨0⟩ .true true] false)] ∧
      ∃ done : List (Access ℕ RegistryEdit),
        done.filter Access.guarded = m.log.filter Access.guarded ∧
        m.given = (Broadcaster.run (done.map operation)).1.flatMap Served.given := by
  obtain ⟨m,run,hl,hg⟩ : ∃ m : Monitor Registry ℕ RegistryEdit Batch,
      ReflTransGen (Monitor.Step writers) (.start .default) m ∧
        m.log = [.edit .subscribe,.call 0,.edit (.broadcast (.rule ⟨0⟩ .true true)),.call 0] ∧
        m.given = [(0,.frames [.rule ⟨0⟩ .true true] false)] := by
    have asleep := (((ReflTransGen.single (Monitor.Step.edit (I := writers) (.start .default)
      RegistryEdit.subscribe rfl trivial)).tail (.enter _ 0 rfl rfl)).tail
      (.check _ 0 rfl rfl)).tail (.sleep _ 0 rfl rfl)
    have notified := (asleep.tail (.edit _ (RegistryEdit.broadcast (.rule ⟨0⟩ .true true)) rfl
      trivial)).tail (.notify _ (by decide))
    have served := ((notified.tail (.resume _ 0 rfl rfl)).tail (.check _ 0 rfl rfl)).tail
      (.take _ 0 (.frames [.rule ⟨0⟩ .true true] false) _ rfl rfl)
    exact ⟨_,served,rfl,rfl⟩
  obtain ⟨done,guarded,-,given,-⟩ := (writers_share_one_broadcaster run).1
  exact ⟨m,run,hl,hg,done,guarded,given⟩

end Domiform.Stream
